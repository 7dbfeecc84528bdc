import NetDial.Proofs.Resolver.Layers

/-!
# What goes on behind a front

In front of a resolver there may be others that answer some calls by themselves,
such as caches. A journal follows the lookups of the resolver inside along the
steps of the traffic. It notes when they end and with which answer, and which
caches are emptied. Of the front it knows only which calls get past it, and not
what the front does with the answers.

**Results.**
* `answerInFront?_cachedBy`: caches in front answer with fresh addresses.
* `tracks_step`: a call through caches goes where its lookup inside goes, and what
  a step does to the caches follows from what it brings to an end inside.
* `along_induction`: what every step keeps, a run keeps.
-/
namespace NetDial

/-- The answer of a call that is done. -/
def CallState.answer? : CallState → Option Answer
  | .answered a => some a
  | .waiting _ _ _ => none

/-- The answer that a call would get without reaching what is behind the front:
the one it gets if behind it there is a server that never replies. -/
def Traffic.answerInFront? (front : Resolver → Resolver) (t : Traffic) (host : Domain) :
    Option Answer :=
  (((front .system).lookup host).settle t.now t.caches).1.answer?

/-- What a journal notes. -/
inductive Event where
  | ended (time : Nat) (host : Domain) (answer : Answer)
  | cleared (cache : Nat)

/-- What is noted of a lookup that gets to this state. -/
def CallState.ending (time : Nat) (host : Domain) : CallState → List Event
  | .answered a => [.ended time host a]
  | .waiting _ _ _ => []

/-- For each call where its lookup inside is, and what was noted. A call that did
not get inside counts as answered there. -/
structure Journal where
  calls : List Call := []
  events : List Event := []

namespace Journal

variable (front : Resolver → Resolver) (inner : Resolver)

/-- The journal after a step of the traffic: the lookups inside take the step as
they would without a front. -/
def record (t : Traffic) (j : Journal) : TrafficStep → Journal
  | .call host =>
    match t.answerInFront? front host with
    | some a => { j with calls := j.calls ++ [⟨host, .answered a⟩] }
    | none =>
      let state := ((inner.lookup host).settle t.now t.caches).1
      ⟨j.calls ++ [⟨host, state⟩], j.events ++ state.ending t.now host⟩
  | .reply i a =>
    match j.calls[i]? with
    | some ⟨host, .waiting _ _ next⟩ =>
      let state := ((next a).settle t.now t.caches).1
      ⟨j.calls.set i ⟨host, state⟩, j.events ++ state.ending t.now host⟩
    | _ => j
  | .clear number => { j with events := j.events ++ [.cleared number] }
  | .tick _ => j

/-- The journal after steps of the traffic. -/
def along (t : Traffic) (j : Journal) : List TrafficStep → Journal
  | [] => j
  | s :: steps =>
    match Traffic.step (front inner) t s with
    | some u => along u (record front inner t j s) steps
    | none => j

end Journal

/-- A call whose lookup in the layers is like this. -/
def Call.cachedBy (layers : List Layer) (c : Call) : Call :=
  ⟨c.host, c.state.cachedBy layers c.host⟩

namespace Journal

variable {front : Resolver → Resolver} {inner : Resolver} {layers : List Layer} {t u : Traffic}
  {j : Journal} {s : TrafficStep}

/-! ## The answers of caches -/

theorem answerInFront?_cachedBy (layers : List Layer) (t : Traffic) (host : Domain) :
    t.answerInFront? (.cachedBy layers) host =
      (Layer.fresh? layers t.now host t.caches).map .ok := by
  cases h : Layer.fresh? layers t.now host t.caches with
  | some ips => simp [Traffic.answerInFront?, Layer.settle_cachedBy_fresh h, CallState.answer?]
  | none =>
    rw [Traffic.answerInFront?, Layer.settle_cachedBy_missed h]
    rfl

/-! ## Calls and the lookups inside -/

/-- Each call is where its lookup inside is, which leaves the caches in front
alone. -/
structure Tracks (layers : List Layer) (t : Traffic) (j : Journal) : Prop where
  calls : t.calls = j.calls.map (Call.cachedBy layers)
  avoids : ∀ c ∈ j.calls, ∀ l ∈ layers, c.state.Avoids l.number

/-- What a step does to the caches of the layers, and what is noted of it. -/
inductive Effect (layers : List Layer) (t : Traffic) (after : Nat → Cache) (news : List Event) :
    Prop
  | hit (host : Domain) (ips : List Ip)
      (found : Layer.fresh? layers t.now host t.caches = some ips)
      (caches : after = Layer.storeAll (Layer.missed layers t.now host t.caches) t.now host ips
        t.caches)
      (none : news = [])
  | ran (host : Domain) (state : CallState) (caches : Nat → Cache)
      (alone : ∀ l ∈ layers, caches l.number = t.caches l.number)
      (kept : after = state.keep layers t.now host caches)
      (ending : news = state.ending t.now host)
  | cleared (number : Nat)
      (caches : after = fun n => if n = number then .empty else t.caches n)
      (cleared : news = [.cleared number])
  | idle (caches : after = t.caches) (none : news = [])

/-- A lookup inside that is run on takes its call along, and the layers keep its
addresses. -/
theorem effect_ran {l : Lookup} (h : ∀ layer ∈ layers, l.Avoids layer.number) (host : Domain) :
    Effect layers t
      ((l.bind (Layer.keeping layers host)).settle t.now t.caches).2
      ((l.settle t.now t.caches).1.ending t.now host) := by
  refine .ran host (l.settle t.now t.caches).1 (l.settle t.now t.caches).2 ?_ ?_ rfl
  · exact fun layer hl => (Lookup.settle_avoids (h layer hl) t.now t.caches).1
  · rw [Layer.settle_bind_keeping]

theorem tracks_call (H : Tracks layers t j)
    (hin : ∀ l ∈ layers, l.number ∉ inner.cacheNumbers) (host : Domain)
    (h : Traffic.step (inner.cachedBy layers) t (.call host) = some u) :
    Tracks layers u (record (.cachedBy layers) inner t j (.call host)) ∧
      ∃ news, (record (.cachedBy layers) inner t j (.call host)).events = j.events ++ news ∧
        Effect layers t u.caches news := by
  rw [Traffic.step_call] at h
  cases h
  cases hf : Layer.fresh? layers t.now host t.caches with
  | some ips =>
    have hrec : record (.cachedBy layers) inner t j (.call host) =
        { j with calls := j.calls ++ [⟨host, .answered (.ok ips)⟩] } := by
      simp [record, answerInFront?_cachedBy, hf]
    rw [hrec, Layer.settle_cachedBy_fresh hf]
    refine ⟨⟨?_, ?_⟩, [], by simp, .hit host ips hf rfl rfl⟩
    · simp [H.calls, Call.cachedBy, CallState.cachedBy]
    · intro c hc
      rcases List.mem_append.1 hc with hc | hc
      · exact H.avoids c hc
      · rw [List.mem_singleton.1 hc]; exact fun _ _ => trivial
  | none =>
    have hav : ∀ l ∈ layers, (inner.lookup host).Avoids l.number := fun l hl =>
      Resolver.lookup_avoids host inner (hin l hl)
    have hrec : record (.cachedBy layers) inner t j (.call host) =
        ⟨j.calls ++ [⟨host, ((inner.lookup host).settle t.now t.caches).1⟩],
          j.events ++ ((inner.lookup host).settle t.now t.caches).1.ending t.now host⟩ := by
      simp [record, answerInFront?_cachedBy, hf]
    rw [hrec, Layer.settle_cachedBy_missed hf]
    refine ⟨⟨?_, ?_⟩, _, rfl, effect_ran hav host⟩
    · simp [H.calls, Call.cachedBy, Layer.settle_bind_keeping]
    · intro c hc
      rcases List.mem_append.1 hc with hc | hc
      · exact H.avoids c hc
      · rw [List.mem_singleton.1 hc]
        exact fun l hl => (Lookup.settle_avoids (hav l hl) t.now t.caches).2

theorem tracks_reply (H : Tracks layers t j) {i : Nat} {a : Answer}
    (h : Traffic.step (inner.cachedBy layers) t (.reply i a) = some u) :
    Tracks layers u (record (.cachedBy layers) inner t j (.reply i a)) ∧
      ∃ news, (record (.cachedBy layers) inner t j (.reply i a)).events = j.events ++ news ∧
        Effect layers t u.caches news := by
  obtain ⟨host, s, asked, next, hi, rfl⟩ := Traffic.step_reply h
  -- the call waits, so its lookup inside waits with what is left of it there
  rw [H.calls, List.getElem?_map, Option.map_eq_some_iff] at hi
  obtain ⟨⟨host', state⟩, hj, hc⟩ := hi
  cases state with
  | answered b => simp [Call.cachedBy, CallState.cachedBy] at hc
  | waiting s' asked' rest =>
    simp only [Call.cachedBy, CallState.cachedBy, Call.mk.injEq, CallState.waiting.injEq] at hc
    obtain ⟨rfl, rfl, rfl, rfl⟩ := hc
    have hav : ∀ l ∈ layers, (rest a).Avoids l.number := fun l hl =>
      H.avoids _ (List.mem_of_getElem? hj) l hl a
    have hrec : record (.cachedBy layers) inner t j (.reply i a) =
        ⟨j.calls.set i ⟨host', ((rest a).settle t.now t.caches).1⟩,
          j.events ++ ((rest a).settle t.now t.caches).1.ending t.now host'⟩ := by
      simp [record, hj]
    rw [hrec]
    refine ⟨⟨?_, ?_⟩, _, rfl, effect_ran hav host'⟩
    · simp [H.calls, Call.cachedBy, Layer.settle_bind_keeping, List.map_set]
    · intro c hc
      rcases List.mem_or_eq_of_mem_set hc with hc | rfl
      · exact H.avoids c hc
      · exact fun l hl => (Lookup.settle_avoids (hav l hl) t.now t.caches).2

/-- A step takes the calls where it takes their lookups inside; what it does to
the caches follows from what it brings to an end there. -/
theorem tracks_step (H : Tracks layers t j)
    (hin : ∀ l ∈ layers, l.number ∉ inner.cacheNumbers)
    (h : Traffic.step (inner.cachedBy layers) t s = some u) :
    Tracks layers u (record (.cachedBy layers) inner t j s) ∧
      ∃ news, (record (.cachedBy layers) inner t j s).events = j.events ++ news ∧
        Effect layers t u.caches news := by
  cases s with
  | call host => exact tracks_call H hin host h
  | reply i a => exact tracks_reply H h
  | clear number =>
    cases h
    exact ⟨⟨H.calls, H.avoids⟩, [.cleared number], rfl, .cleared number rfl rfl⟩
  | tick d =>
    cases h
    exact ⟨⟨H.calls, H.avoids⟩, [], by simp [record], .idle rfl rfl⟩

theorem tracks_start (layers : List Layer) (start : Nat) :
    Tracks layers { now := start } {} :=
  ⟨rfl, by simp⟩

/-! ## Along a run -/

/-- What every step keeps of traffic and journal together, a run keeps. -/
theorem along_induction (P : Traffic → Journal → Prop)
    (hstep : ∀ t j s u, P t j → Traffic.step (front inner) t s = some u →
      P u (record front inner t j s))
    {steps : List TrafficStep} (h : P t j) (hrun : Traffic.run (front inner) t steps = some u) :
    P u (along front inner t j steps) := by
  induction steps generalizing t j with
  | nil => cases hrun; exact h
  | cons s steps ih =>
    rw [Traffic.run_cons] at hrun
    obtain ⟨v, hv, hrun⟩ := Option.bind_eq_some_iff.1 hrun
    simp only [along, hv]
    exact ih (hstep t j s v h hv) hrun

end Journal
end NetDial
