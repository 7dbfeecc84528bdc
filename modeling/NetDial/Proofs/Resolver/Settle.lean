import NetDial.Resolver.Traffic

/-!
# Running lookups

`Lookup.settle` runs a lookup until it waits for a server or is done. A lookup
may follow another (`bind`), and it leaves alone the caches that it does not
mention (`Lookup.Avoids`); those are all but the caches of its resolver.

**Results.**
* `settle_bind_answered`, `settle_bind_waiting`: a lookup that follows another
  starts where the other is done.
* `settle_avoids`: what a lookup avoids, it does not change, also after it waited.
* `Resolver.lookup_avoids`: the lookups of a resolver avoid every cache but its
  own.
* `Traffic.step_call`, `Traffic.step_reply`: a step runs a lookup on.
-/
namespace NetDial

namespace Lookup

variable {now number : Nat} {l : Lookup} {f : Answer → Lookup} {caches after : Nat → Cache}

theorem settle_bind_answered {a : Answer} (h : l.settle now caches = (.answered a, after)) :
    (l.bind f).settle now caches = (f a).settle now after := by
  induction l generalizing caches with
  | done b =>
    simp only [settle, Prod.mk.injEq, CallState.answered.injEq] at h
    obtain ⟨rfl, rfl⟩ := h
    rfl
  | ask s host next => simp [settle] at h
  | consult c host next ih => exact ih _ h
  | store c ttl host ips next ih => exact ih h

theorem settle_bind_waiting {s : Server} {host : Domain} {next : Answer → Lookup}
    (h : l.settle now caches = (.waiting s host next, after)) :
    (l.bind f).settle now caches = (.waiting s host fun a => (next a).bind f, after) := by
  induction l generalizing caches with
  | done b => simp [settle] at h
  | ask s host next =>
    simp only [settle, Prod.mk.injEq, CallState.waiting.injEq] at h
    obtain ⟨⟨rfl, rfl, rfl⟩, rfl⟩ := h
    rfl
  | consult c host next ih => exact ih _ h
  | store c ttl host ips next ih => exact ih h

theorem settle_bind_congr {l' : Lookup} (h : l.settle now caches = l'.settle now caches) :
    (l.bind f).settle now caches = (l'.bind f).settle now caches := by
  rcases hl : l'.settle now caches with ⟨state, after⟩
  rw [hl] at h
  cases state with
  | waiting s host next => rw [settle_bind_waiting h, settle_bind_waiting hl]
  | answered a => rw [settle_bind_answered h, settle_bind_answered hl]

/-! ## Caches that a lookup leaves alone -/

/-- The lookup neither consults a cache nor stores in it. -/
def Avoids (number : Nat) : Lookup → Prop
  | done _ => True
  | ask _ _ next => ∀ a, Avoids number (next a)
  | consult c _ next => c ≠ number ∧ ∀ found, Avoids number (next found)
  | store c _ _ _ next => c ≠ number ∧ Avoids number next

theorem Avoids.bind (h : l.Avoids number) (hf : ∀ a, (f a).Avoids number) :
    (l.bind f).Avoids number := by
  induction l with
  | done a => exact hf a
  | ask s host next ih => exact fun a => ih a (h a)
  | consult c host next ih => exact ⟨h.1, fun found => ih found (h.2 found)⟩
  | store c ttl host ips next ih => exact ⟨h.1, ih h.2⟩

theorem avoids_storing {c : Nat} (h : c ≠ number) (ttl : Nat) (host : Domain) (a : Answer) :
    (storing c ttl host a).Avoids number := by
  cases a with
  | ok ips => exact ⟨h, trivial⟩
  | error e => trivial

end Lookup

/-- A lookup that waits like this will avoid the cache. -/
def CallState.Avoids (number : Nat) : CallState → Prop
  | .waiting _ _ next => ∀ a, (next a).Avoids number
  | .answered _ => True

theorem Lookup.settle_avoids {number : Nat} {l : Lookup} (h : l.Avoids number) (now : Nat)
    (caches : Nat → Cache) :
    (l.settle now caches).2 number = caches number ∧ (l.settle now caches).1.Avoids number := by
  induction l generalizing caches with
  | done a => exact ⟨rfl, trivial⟩
  | ask s host next => exact ⟨rfl, h⟩
  | consult c host next ih => exact ih _ (h.2 _) caches
  | store c ttl host ips next ih =>
    obtain ⟨hc, ha⟩ := ih h.2 _
    exact ⟨hc.trans (if_neg h.1.symm), ha⟩

/-! ## The caches of a resolver -/

namespace Resolver

mutual
/-- The caches in a resolver. -/
def cacheNumbers : Resolver → List Nat
  | table _ => []
  | deny => []
  | server _ => []
  | chain members => cacheNumbersOf members
  | cache number _ inner => number :: cacheNumbers inner
  | boxed inner => cacheNumbers inner
  | shared inner => cacheNumbers inner

/-- The caches in resolvers. -/
def cacheNumbersOf : List Resolver → List Nat
  | [] => []
  | r :: rs => cacheNumbers r ++ cacheNumbersOf rs
end

mutual
/-- The lookups of a resolver avoid a cache that is not in it. -/
theorem lookup_avoids (host : Domain) {number : Nat} :
    (r : Resolver) → number ∉ r.cacheNumbers → (r.lookup host).Avoids number
  | table _, _ => trivial
  | deny, _ => trivial
  | server _, _ => fun _ => trivial
  | chain members, h => firstOf_avoids host emptyChain members h
  | cache c ttl inner, h => by
    simp only [cacheNumbers, List.mem_cons, not_or] at h
    have hne : c ≠ number := Ne.symm h.1
    refine ⟨hne, fun found => ?_⟩
    cases found with
    | some ips => trivial
    | none => exact (lookup_avoids host inner h.2).bind (Lookup.avoids_storing hne ttl host)
  | boxed inner, h => lookup_avoids host inner h
  | shared inner, h => lookup_avoids host inner h

theorem firstOf_avoids (host : Domain) {number : Nat} (failure : Error) :
    (rs : List Resolver) → number ∉ cacheNumbersOf rs →
      (firstOf host failure rs).Avoids number
  | [], _ => trivial
  | r :: rs, h => by
    simp only [cacheNumbersOf, List.mem_append, not_or] at h
    refine (lookup_avoids host r h.1).bind fun a => ?_
    cases a with
    | ok ips => trivial
    | error e => exact firstOf_avoids host e rs h.2
end

end Resolver

/-! ## Steps that run a lookup on -/

namespace Traffic

variable {r : Resolver} {t u : Traffic}

theorem step_call (r : Resolver) (t : Traffic) (host : Domain) :
    step r t (.call host) = some { t with
      caches := ((r.lookup host).settle t.now t.caches).2
      calls := t.calls ++ [⟨host, ((r.lookup host).settle t.now t.caches).1⟩] } :=
  rfl

theorem step_reply {i : Nat} {a : Answer} (h : step r t (.reply i a) = some u) :
    ∃ host s asked next, t.calls[i]? = some ⟨host, .waiting s asked next⟩ ∧
      u = { t with
        caches := ((next a).settle t.now t.caches).2
        calls := t.calls.set i ⟨host, ((next a).settle t.now t.caches).1⟩ } := by
  simp only [step] at h
  split at h
  · rename_i host s asked next hi
    exact ⟨host, s, asked, next, hi, (Option.some.inj h).symm⟩
  · cases h

theorem run_cons (s : TrafficStep) (steps : List TrafficStep) :
    run r t (s :: steps) = (step r t s).bind fun u => run r u steps := by
  simp [run, List.foldlM_cons]

end Traffic
end NetDial
