import NetDial.Proofs.Resolver.Journal

/-!
# Caches change no answer

Where the lookups of a resolver that end all end with the answer that is fixed
for their host, caches around the resolver are not noticed: what they hold of a
host are the addresses of its fixed answer (`Faithful`), whenever they were
stored, by which of the lookups that overlapped, and in whichever layer.

**Results.**
* `mem_calls_record`: where the lookups inside get their answers from.
* `faithful_step`, `faithful_run`: what every layer holds of a host is its fixed
  answer.
* `calls_answered_as_inside`: so every call through any layers of caches gets
  the fixed answer, as soon as its lookup inside has it.
-/
namespace NetDial.Journal

variable {front : Resolver → Resolver} {inner : Resolver} {layers : List Layer} {t u : Traffic}
  {j : Journal} {s : TrafficStep} {g : Domain → Answer}

/-! ## Answers in the journal -/

/-- The lookups that ended inside ended with the answer that is fixed for their
host. -/
def Steady (g : Domain → Answer) (j : Journal) : Prop :=
  ∀ time host a, .ended time host a ∈ j.events → a = g host

theorem events_record (front : Resolver → Resolver) (inner : Resolver) (t : Traffic)
    (j : Journal) (s : TrafficStep) :
    ∃ news, (record front inner t j s).events = j.events ++ news := by
  cases s with
  | call host =>
    simp only [record]
    split
    · exact ⟨[], by simp⟩
    · exact ⟨_, rfl⟩
  | reply i a =>
    simp only [record]
    split
    · exact ⟨_, rfl⟩
    · exact ⟨[], by simp⟩
  | clear number => exact ⟨_, rfl⟩
  | tick d => exact ⟨[], by simp [record]⟩

theorem Steady.of_record (h : (record front inner t j s).Steady g) : j.Steady g := by
  obtain ⟨news, hnews⟩ := events_record front inner t j s
  intro time host a ha
  exact h time host a (by rw [hnews]; exact List.mem_append_left _ ha)

/-- A lookup inside is as it was before the step, or it was answered in front, or
it was run on and the journal says where it got. -/
theorem mem_calls_record {c : Call} (h : c ∈ (record front inner t j s).calls) :
    c ∈ j.calls ∨
      (∃ a, t.answerInFront? front c.host = some a ∧ c.state = .answered a) ∨
      (record front inner t j s).events = j.events ++ c.state.ending t.now c.host := by
  cases s with
  | call host =>
    cases hf : t.answerInFront? front host with
    | some a =>
      simp only [record, hf, List.mem_append, List.mem_singleton] at h
      rcases h with h | rfl
      · exact .inl h
      · exact .inr (.inl ⟨a, hf, rfl⟩)
    | none =>
      simp only [record, hf, List.mem_append, List.mem_singleton] at h ⊢
      rcases h with h | rfl
      · exact .inl h
      · exact .inr (.inr rfl)
  | reply i a =>
    simp only [record] at h ⊢
    split at h
    · rename_i hi
      rcases List.mem_or_eq_of_mem_set h with h | rfl
      · exact .inl h
      · exact .inr (.inr rfl)
    · exact .inl h
  | clear number => exact .inl h
  | tick d => exact .inl h

/-! ## The invariant -/

/-- The layers hold nothing but fixed answers, and the lookups inside have no
others. -/
structure Faithful (layers : List Layer) (g : Domain → Answer) (t : Traffic) (j : Journal) : Prop
    extends Tracks layers t j where
  entries : ∀ l ∈ layers, ∀ host e,
    (t.caches l.number).find? host = some e → g host = .ok e.ips
  answers : ∀ c ∈ j.calls, ∀ a, c.state = .answered a → a = g c.host

theorem Faithful.of_fresh? (H : Faithful layers g t j) {host : Domain} {ips : List Ip}
    (h : Layer.fresh? layers t.now host t.caches = some ips) : g host = .ok ips := by
  obtain ⟨l, hl, hf⟩ := List.exists_of_findSome?_eq_some h
  obtain ⟨e, he, -, rfl⟩ := Cache.fresh?_eq_some_iff.1 hf
  exact H.entries l hl host e he

/-- Storing the fixed answer of a host keeps every other entry. -/
theorem entries_storeAll {ls : List Layer} {now number : Nat} {host key : Domain} {ips : List Ip}
    {caches : Nat → Cache} {e : CacheEntry} (hg : g host = .ok ips)
    (hold : ∀ key e, (caches number).find? key = some e → g key = .ok e.ips)
    (h : (Layer.storeAll ls now host ips caches number).find? key = some e) :
    g key = .ok e.ips := by
  rcases Layer.find?_storeAll h with h | ⟨rfl, hips⟩
  · exact hold key e h
  · rw [hips]; exact hg

theorem entries_effect {news : List Event} {after : Nat → Cache} (H : Faithful layers g t j)
    (hnews : ∀ time host a, .ended time host a ∈ news → a = g host)
    (h : Effect layers t after news) {l : Layer} (hl : l ∈ layers) {key : Domain} {e : CacheEntry}
    (hf : (after l.number).find? key = some e) : g key = .ok e.ips := by
  have hold := H.entries l hl
  cases h with
  | hit host ips found caches none =>
    rw [caches] at hf
    exact entries_storeAll (H.of_fresh? found) hold hf
  | ran host state before alone kept ending =>
    rw [← alone l hl] at hold
    rw [kept] at hf
    cases state with
    | waiting s asked next => exact hold key e hf
    | answered a =>
      cases a with
      | error err => exact hold key e hf
      | ok ips =>
        have hended : .ended t.now host (.ok ips) ∈ news := by simp [ending, CallState.ending]
        exact entries_storeAll (hnews t.now host (.ok ips) hended).symm hold hf
  | cleared number caches cleared =>
    rw [caches] at hf
    by_cases hn : l.number = number
    · simp [hn, Cache.empty, Cache.find?] at hf
    · simp only [hn, if_false] at hf
      exact hold key e hf
  | idle caches none => rw [caches] at hf; exact hold key e hf

theorem faithful_start (layers : List Layer) (g : Domain → Answer) (start : Nat) :
    Faithful layers g { now := start } {} where
  toTracks := tracks_start _ _
  entries l hl host e h := by cases h
  answers c hc := by cases hc

theorem faithful_step (H : Faithful layers g t j)
    (hin : ∀ l ∈ layers, l.number ∉ inner.cacheNumbers)
    (hsteady : (record (.cachedBy layers) inner t j s).Steady g)
    (h : Traffic.step (inner.cachedBy layers) t s = some u) :
    Faithful layers g u (record (.cachedBy layers) inner t j s) := by
  obtain ⟨hu, news, hevents, heffect⟩ := tracks_step H.toTracks hin h
  refine ⟨hu, fun l hl key e => entries_effect H ?_ heffect hl, fun c hc a ha => ?_⟩
  · intro time host a hmem
    exact hsteady time host a (by rw [hevents]; exact List.mem_append_right _ hmem)
  · rcases mem_calls_record hc with hc | ⟨b, hfront, hb⟩ | hnoted
    · exact H.answers c hc a ha
    · obtain rfl : b = a := by rw [ha] at hb; cases hb; rfl
      rw [answerInFront?_cachedBy, Option.map_eq_some_iff] at hfront
      obtain ⟨ips, hf, rfl⟩ := hfront
      exact (H.of_fresh? hf).symm
    · refine hsteady t.now c.host a ?_
      rw [hnoted, ha]
      simp [CallState.ending]

theorem faithful_run {start : Nat} {steps : List TrafficStep}
    (hin : ∀ l ∈ layers, l.number ∉ inner.cacheNumbers)
    (hrun : Traffic.run (inner.cachedBy layers) { now := start } steps = some t)
    (hsteady : (along (.cachedBy layers) inner { now := start } {} steps).Steady g) :
    Faithful layers g t (along (.cachedBy layers) inner { now := start } {} steps) := by
  -- the journal only grows, so what holds of all of it held at every step
  refine along_induction (fun t j => j.Steady g → Faithful layers g t j) ?_ ?_ hrun hsteady
  · intro t j s u H h hs
    exact faithful_step (H hs.of_record) hin hs h
  · exact fun _ => faithful_start layers g start

/-! ## Calls through caches -/

/-- After any run over any layers of caches around any resolver whose lookups that
ended gave the fixed answer of their host, be it addresses or an error, each call
through the layers was answered with just that, or it waits for the same server as
its lookup inside. -/
theorem calls_answered_as_inside {start : Nat} {steps : List TrafficStep}
    (hin : ∀ l ∈ layers, l.number ∉ inner.cacheNumbers)
    (hrun : Traffic.run (inner.cachedBy layers) { now := start } steps = some t)
    (hj : along (.cachedBy layers) inner { now := start } {} steps = j)
    (hfixed : ∀ time host a, .ended time host a ∈ j.events → a = g host) {i : Nat} {c : Call}
    (hc : t.calls[i]? = some c) :
    c.state = .answered (g c.host) ∨
      ∃ s asked next rest, c.state = .waiting s asked next ∧
        j.calls[i]? = some ⟨c.host, .waiting s asked rest⟩ := by
  have H : Faithful layers g t j := by
    subst hj
    exact faithful_run hin hrun hfixed
  rw [H.calls, List.getElem?_map, Option.map_eq_some_iff] at hc
  obtain ⟨⟨host, state⟩, hd, rfl⟩ := hc
  cases state with
  | waiting s asked rest => exact .inr ⟨s, asked, _, rest, rfl, hd⟩
  | answered a =>
    have ha := H.answers _ (List.mem_of_getElem? hd) a rfl
    rw [ha]
    exact .inl rfl

/-- The layers of an outer cache that keeps addresses for 5, and an inner one that
keeps them for good. -/
def twoLayers : List Layer :=
  [⟨1, 5⟩, ⟨2, 0⟩]

/-- A host that the server knows, and one that it does not. -/
def known : Domain :=
  ⟨"known".toList, by decide⟩

def unknown : Domain :=
  ⟨"unknown".toList, by decide⟩

/-- The fixed answers of that server. -/
def knownOnly (host : Domain) : Answer :=
  if host = known then .ok [.v4 ⟨10, 0, 0, 1⟩] else .error (.root .hostNotMapped)

/-- Calls of the host that go to the server, to the inner layer and, after that was
emptied, to the outer one; then a call of the other host. -/
def layeredCalls : List TrafficStep :=
  [.call known, .reply 0 (knownOnly known), .tick 10, .call known, .clear 2, .call known,
    .call unknown, .reply 3 (knownOnly unknown)]

theorem calls_answered_as_inside_layered :
    (∀ l ∈ twoLayers, l.number ∉ Resolver.system.cacheNumbers) ∧
      ∃ t, Traffic.run (Resolver.system.cachedBy twoLayers) { now := 0 } layeredCalls = some t ∧
        (∀ time host a, .ended time host a ∈
          (along (.cachedBy twoLayers) .system { now := 0 } {} layeredCalls).events →
            a = knownOnly host) ∧
        ∃ c, t.calls[2]? = some c ∧ c.state = .answered (knownOnly c.host) := by
  have hin : ∀ l ∈ twoLayers, l.number ∉ Resolver.system.cacheNumbers := by decide
  have hrun : Traffic.run (Resolver.system.cachedBy twoLayers) { now := 0 } layeredCalls =
      some _ := rfl
  have hevents : (along (.cachedBy twoLayers) .system { now := 0 } {} layeredCalls).events =
      [.ended 0 known (knownOnly known), .cleared 2, .ended 10 unknown (knownOnly unknown)] := rfl
  have hfixed : ∀ time host a, .ended time host a ∈
      (along (.cachedBy twoLayers) .system { now := 0 } {} layeredCalls).events →
        a = knownOnly host := by
    intro time host a hmem
    rw [hevents] at hmem
    simp only [List.mem_cons, Event.ended.injEq, reduceCtorEq, List.not_mem_nil, or_false,
      false_or] at hmem
    rcases hmem with ⟨rfl, rfl, rfl⟩ | ⟨rfl, rfl, rfl⟩ <;> rfl
  refine ⟨hin, _, hrun, hfixed, ⟨known, .answered (knownOnly known)⟩, rfl, ?_⟩
  rcases calls_answered_as_inside (i := 2) hin hrun rfl hfixed rfl with
    h | ⟨s, asked, next, rest, h, -⟩
  · exact h
  · cases h

end NetDial.Journal
