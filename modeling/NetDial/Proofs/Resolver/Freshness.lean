import NetDial.Proofs.Resolver.Journal

/-!
# What a cache answers

The journal of the resolver inside a cache tells what the cache holds: of each
host the addresses that a lookup inside found last since the cache was emptied,
if any (`LastStore`), and how long they stay fresh. `Coherent` is the invariant
that says so; it holds however many lookups overlap.

**Results.**
* `lastStore_concat`: what is noted last decides.
* `isFresh_expiryAfter_iff`: how long addresses are fresh.
* `coherent_run`: every run is coherent.
* `answered_by_last_store`: a cache answers by itself exactly with the last
  addresses of the host, while they are fresh.
-/
namespace NetDial

/-! ## The last store -/

/-- The event changes what a cache holds of a host: it is emptied, or a lookup of
the host inside ends with addresses. -/
def Event.Touches (number : Nat) (host : Domain) : Event → Prop
  | .ended _ h (.ok _) => h = host
  | .ended _ _ (.error _) => False
  | .cleared n => n = number

/-- The last addresses of a host that were found since the cache was emptied
are these, and were found at this time. -/
def LastStore (number : Nat) (host : Domain) (events : List Event) (time : Nat)
    (ips : List Ip) : Prop :=
  ∃ before after, events = before ++ .ended time host (.ok ips) :: after ∧
    ∀ e ∈ after, ¬ e.Touches number host

variable {number ttl time : Nat} {host : Domain} {ips : List Ip} {events news : List Event}

theorem lastStore_concat (e : Event) :
    LastStore number host (events ++ [e]) time ips ↔
      e = .ended time host (.ok ips) ∨
        (¬ e.Touches number host ∧ LastStore number host events time ips) := by
  constructor
  · rintro ⟨before, after, heq, hafter⟩
    rcases List.eq_nil_or_concat after with rfl | ⟨rest, last, rfl⟩
    · exact .inl (List.cons.inj (List.append_inj_right' heq rfl)).1
    · rw [List.concat_eq_append, ← List.cons_append, ← List.append_assoc] at heq
      obtain ⟨hev, hlast⟩ := List.append_inj' heq rfl
      obtain rfl := (List.cons.inj hlast).1
      exact .inr ⟨hafter e (by simp), before, rest, hev, fun x hx => hafter x (by simp [hx])⟩
  · rintro (rfl | ⟨he, before, after, rfl, hafter⟩)
    · exact ⟨events, [], rfl, by simp⟩
    · refine ⟨before, after ++ [e], by simp, fun x hx => ?_⟩
      rcases List.mem_append.1 hx with hx | hx
      · exact hafter x hx
      · rw [List.mem_singleton.1 hx]; exact he

theorem not_lastStore_nil : ¬ LastStore number host [] time ips := by
  rintro ⟨before, after, heq, -⟩
  simp at heq

/-- What touches nothing of a host leaves its last store. -/
theorem lastStore_append (h : ∀ e ∈ news, ¬ e.Touches number host) :
    LastStore number host (events ++ news) time ips ↔ LastStore number host events time ips := by
  induction news generalizing events with
  | nil => simp
  | cons e news ih =>
    have he := h e (by simp)
    have hne : e ≠ .ended time host (.ok ips) := fun heq => he (by simp [heq, Event.Touches])
    rw [List.append_cons, ih fun x hx => h x (by simp [hx]), lastStore_concat]
    simp [he, hne]

/-! ## Freshness -/

/-- Addresses that were stored are fresh up to the end of their time to live, if
it has an end. -/
theorem isFresh_expiryAfter_iff (ips : List Ip) (time ttl now : Nat) :
    (CacheEntry.mk ips (expiryAfter time ttl)).isFresh now = true ↔
      ttl = 0 ∨ instantAfter? time ttl = none ∨ now < time + ttl := by
  by_cases h0 : ttl = 0
  · simp [CacheEntry.isFresh, expiryAfter, h0]
  · by_cases hend : time + ttl < clockEnd
    · simp [CacheEntry.isFresh, expiryAfter, instantAfter?, h0, hend]
    · simp [CacheEntry.isFresh, expiryAfter, instantAfter?, h0, hend]

/-! ## The invariant -/

namespace Journal

variable {inner : Resolver} {t u : Traffic} {j : Journal} {s : TrafficStep}
  {after : Nat → Cache}

/-- A cache holds of each host what the journal says was stored last. -/
structure Coherent (number ttl : Nat) (t : Traffic) (j : Journal) : Prop extends
    Tracks [⟨number, ttl⟩] t j where
  entry : ∀ host e, (t.caches number).find? host = some e ↔
    ∃ time ips, LastStore number host j.events time ips ∧ e = ⟨ips, expiryAfter time ttl⟩

/-- A step leaves a cache as it is, stores addresses that a lookup inside found, or
empties it. -/
theorem effect_cache (h : Effect [⟨number, ttl⟩] t after news) :
    (after number = t.caches number ∧ ∀ e ∈ news, ∀ host, ¬ e.Touches number host) ∨
      (∃ host ips, after number = (t.caches number).store t.now ttl host ips ∧
        news = [.ended t.now host (.ok ips)]) ∨
      (after number = .empty ∧ news = [.cleared number]) := by
  cases h with
  | hit host ips found caches none =>
    have hmissed : Layer.missed [⟨number, ttl⟩] t.now host t.caches = [] := by
      simp only [Layer.fresh?, List.findSome?_cons, List.findSome?_nil] at found
      split at found
      · rename_i hf
        simp [Layer.missed, hf]
      · cases found
    rw [hmissed] at caches
    exact .inl ⟨by rw [caches]; rfl, by simp [none]⟩
  | ran host state before alone kept ending =>
    have hbefore := alone _ (List.mem_singleton_self _)
    cases state with
    | waiting srv asked next =>
      exact .inl ⟨by rw [kept]; exact hbefore, by simp [ending, CallState.ending]⟩
    | answered a =>
      cases a with
      | error e =>
        exact .inl ⟨by rw [kept]; exact hbefore, by simp [ending, CallState.ending, Event.Touches]⟩
      | ok ips =>
        refine .inr (.inl ⟨host, ips, ?_, ending⟩)
        rw [kept, ← hbefore]
        simp [CallState.keep, Layer.storeAll]
  | cleared n caches cleared =>
    by_cases hn : number = n
    · subst hn
      exact .inr (.inr ⟨by rw [caches]; simp, cleared⟩)
    · exact .inl ⟨by rw [caches]; simp [hn], by simp [cleared, Event.Touches, Ne.symm hn]⟩
  | idle caches none => exact .inl ⟨by rw [caches], by simp [none]⟩

/-- What a step does not touch in a cache stays. -/
theorem find?_of_effect (h : Effect [⟨number, ttl⟩] t after news)
    (hnews : ∀ e ∈ news, ¬ e.Touches number host) :
    (after number).find? host = (t.caches number).find? host := by
  rcases effect_cache h with ⟨hc, -⟩ | ⟨other, ips, hc, hn⟩ | ⟨-, hn⟩
  · rw [hc]
  · have hne : other ≠ host := hnews (.ended t.now other (.ok ips)) (by simp [hn])
    rw [hc, Cache.find?_store_of_ne _ _ _ _ hne.symm]
  · exact absurd rfl (hnews (.cleared number) (by simp [hn]))

theorem coherent_start (number ttl start : Nat) : Coherent number ttl { now := start } {} where
  toTracks := tracks_start _ _
  entry host e := by simp [not_lastStore_nil, Cache.empty, Cache.find?]

theorem coherent_step (H : Coherent number ttl t j) (hin : number ∉ inner.cacheNumbers)
    (h : Traffic.step (.cache number ttl inner) t s = some u) :
    Coherent number ttl u (record (.cache number ttl) inner t j s) := by
  obtain ⟨hu, news, hevents, heffect⟩ := tracks_step H.toTracks (by simpa using hin) h
  refine ⟨hu, fun host e => ?_⟩
  change (record (.cache number ttl) inner t j s).events = _ at hevents
  rw [hevents]
  by_cases hn : ∀ e ∈ news, ¬ e.Touches number host
  · simp only [lastStore_append hn]
    rw [find?_of_effect heffect hn]
    exact H.entry host e
  · rcases effect_cache heffect with ⟨-, hno⟩ | ⟨other, ips, hc, rfl⟩ | ⟨hc, rfl⟩
    · exact absurd (fun e he => hno e he host) hn
    · -- the step stored addresses of this very host
      have hother : other = host := by simpa [Event.Touches] using hn
      subst hother
      rw [hc, Cache.find?_store_self]
      constructor
      · intro he
        exact ⟨t.now, ips, (lastStore_concat _).2 (.inl rfl), (Option.some.inj he).symm⟩
      · rintro ⟨time, found, hlast, rfl⟩
        rcases (lastStore_concat _).1 hlast with heq | ⟨hno, -⟩
        · cases heq; rfl
        · exact absurd rfl hno
    · rw [hc]
      simp [lastStore_concat, Event.Touches, Cache.empty, Cache.find?]

theorem coherent_run {start : Nat} {steps : List TrafficStep} (hin : number ∉ inner.cacheNumbers)
    (hrun : Traffic.run (.cache number ttl inner) { now := start } steps = some t) :
    Coherent number ttl t (along (.cache number ttl) inner { now := start } {} steps) :=
  along_induction (Coherent number ttl) (fun _ _ _ _ H h => coherent_step H hin h)
    (coherent_start number ttl start) hrun

/-! ## Answers of a cache -/

theorem answerInFront?_cache (number ttl : Nat) (t : Traffic) (host : Domain) :
    t.answerInFront? (.cache number ttl) host =
      ((t.caches number).fresh? t.now host).map .ok := by
  refine (answerInFront?_cachedBy [⟨number, ttl⟩] t host).trans ?_
  simp [Layer.fresh?]

/-- A cache has an answer of its own exactly while the last addresses of the host
are fresh. -/
theorem Coherent.answerInFront?_eq_some_iff (H : Coherent number ttl t j) {a : Answer} :
    t.answerInFront? (.cache number ttl) host = some a ↔
      ∃ time ips, a = .ok ips ∧ LastStore number host j.events time ips ∧
        (ttl = 0 ∨ instantAfter? time ttl = none ∨ t.now < time + ttl) := by
  rw [answerInFront?_cache, Option.map_eq_some_iff]
  constructor
  · rintro ⟨ips, hf, rfl⟩
    obtain ⟨e, he, hnow, rfl⟩ := Cache.fresh?_eq_some_iff.1 hf
    obtain ⟨time, ips, hlast, rfl⟩ := (H.entry host e).1 he
    exact ⟨time, ips, rfl, hlast, (isFresh_expiryAfter_iff ips time ttl t.now).1 hnow⟩
  · rintro ⟨time, ips, rfl, hlast, hnow⟩
    refine ⟨ips, Cache.fresh?_eq_some_iff.2 ⟨⟨ips, expiryAfter time ttl⟩, ?_, ?_, rfl⟩, rfl⟩
    · exact (H.entry host _).2 ⟨time, ips, hlast, rfl⟩
    · exact (isFresh_expiryAfter_iff ips time ttl t.now).2 hnow

/-- A call that the cache answers by itself changes nothing else. -/
theorem step_call_of_answerInFront? {a : Answer} (inner : Resolver)
    (h : t.answerInFront? (.cache number ttl) host = some a) :
    Traffic.step (.cache number ttl inner) t (.call host) =
      some { t with calls := t.calls ++ [⟨host, .answered a⟩] } := by
  rw [answerInFront?_cache, Option.map_eq_some_iff] at h
  obtain ⟨ips, hf, rfl⟩ := h
  simp only [Traffic.step_call, Resolver.lookup, Lookup.settle, hf]

/-- After any run over a cache around any resolver, a call of a host is answered
without reaching the resolver inside exactly if a lookup of the host inside
found addresses since the cache was last emptied, and the last to find some did so
less than a time to live ago, or the cache's addresses never expire; the answer is
those addresses, and nothing else comes of the call. A step that neither empties
the cache nor ends a lookup of this host inside with addresses leaves what the
cache holds of the host. -/
theorem answered_by_last_store {start : Nat} {steps : List TrafficStep}
    (hin : number ∉ inner.cacheNumbers)
    (hrun : Traffic.run (.cache number ttl inner) { now := start } steps = some t)
    (hj : along (.cache number ttl) inner { now := start } {} steps = j) (host : Domain) :
    (∀ a, t.answerInFront? (.cache number ttl) host = some a ↔
      ∃ time ips, a = .ok ips ∧ LastStore number host j.events time ips ∧
        (ttl = 0 ∨ instantAfter? time ttl = none ∨ t.now < time + ttl)) ∧
    (∀ a, t.answerInFront? (.cache number ttl) host = some a →
      Traffic.step (.cache number ttl inner) t (.call host) =
        some { t with calls := t.calls ++ [⟨host, .answered a⟩] }) ∧
    (∀ s u news, Traffic.step (.cache number ttl inner) t s = some u →
      (record (.cache number ttl) inner t j s).events = j.events ++ news →
      (∀ e ∈ news, ¬ e.Touches number host) →
      (u.caches number).find? host = (t.caches number).find? host) := by
  have H : Coherent number ttl t j := hj ▸ coherent_run hin hrun
  refine ⟨fun a => H.answerInFront?_eq_some_iff, fun a => step_call_of_answerInFront? inner, ?_⟩
  intro s u news h hrec hnews
  obtain ⟨-, noted, hevents, heffect⟩ := tracks_step H.toTracks (by simpa using hin) h
  have heq : noted = news := List.append_cancel_left (hevents.symm.trans hrec)
  exact find?_of_effect heffect (heq ▸ hnews)

/-- Two hosts that differ in case only. -/
def lowerCase : Domain :=
  ⟨"a".toList, by decide⟩

def upperCase : Domain :=
  ⟨"A".toList, by decide⟩

/-- What a server knew of the one host, first and later. -/
def oldIps : List Ip :=
  [.v4 ⟨10, 0, 0, 1⟩]

def newIps : List Ip :=
  [.v4 ⟨10, 0, 0, 2⟩]

/-- Two lookups of the one host overlap, and one of the other host, which fails at
the end. The later store is at 7, and at the end it is 16. -/
def overlapping : List TrafficStep :=
  [.call lowerCase, .clear 1, .call lowerCase, .tick 5, .reply 0 (.ok oldIps), .call upperCase,
    .tick 2, .reply 1 (.ok newIps), .tick 9, .reply 2 (.error (.root .hostNotMapped))]

/-- With a time to live of 10 the later answer is given up to 16. -/
theorem answered_by_last_store_overlapping :
    1 ∉ Resolver.system.cacheNumbers ∧
      ∃ t, Traffic.run (.cache 1 10 .system) { now := 0 } overlapping = some t ∧
        (along (.cache 1 10) .system { now := 0 } {} overlapping).events =
          [.cleared 1, .ended 5 lowerCase (.ok oldIps), .ended 7 lowerCase (.ok newIps),
            .ended 16 upperCase (.error (.root .hostNotMapped))] ∧
        t.answerInFront? (.cache 1 10) lowerCase = some (.ok newIps) := by
  have hin : 1 ∉ Resolver.system.cacheNumbers := by decide
  have hrun : Traffic.run (.cache 1 10 .system) { now := 0 } overlapping = some _ := rfl
  refine ⟨hin, _, hrun, rfl, ?_⟩
  refine ((answered_by_last_store hin hrun rfl lowerCase).1 _).2 ?_
  refine ⟨7, newIps, rfl, ⟨[.cleared 1, .ended 5 lowerCase (.ok oldIps)],
    [.ended 16 upperCase (.error (.root .hostNotMapped))], rfl, ?_⟩, .inr (.inr (by decide))⟩
  simp [Event.Touches]

end Journal
end NetDial
