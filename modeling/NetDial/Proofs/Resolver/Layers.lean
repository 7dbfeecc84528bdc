import NetDial.Proofs.Resolver.Settle

/-!
# Caches around a resolver

Caches may stand in layers around a resolver, the first layer outermost. A
lookup that finds fresh addresses in a layer is done with them, and stores them
in the layers that it missed on the way; else it is the lookup of the resolver
inside, after which all layers store the addresses.

**Results.**
* `settle_cachedBy_fresh`, `settle_cachedBy_missed`: these are the two cases.
* `settle_bind_keeping`: the layers pass on where the lookup inside gets to, and
  keep its addresses.
* `find?_storeAll`: nothing but the addresses of that host are stored.
-/
namespace NetDial

theorem Cache.fresh?_eq_some_iff {c : Cache} {now : Nat} {host : Domain} {ips : List Ip} :
    c.fresh? now host = some ips ↔
      ∃ e, c.find? host = some e ∧ e.isFresh now = true ∧ e.ips = ips := by
  simp [Cache.fresh?, Option.bind_eq_some_iff]

/-- A cache by its number, with its time to live. -/
structure Layer where
  number : Nat
  ttl : Nat
  deriving DecidableEq, Repr

/-- The resolver with caches around it. -/
def Resolver.cachedBy (layers : List Layer) (inner : Resolver) : Resolver :=
  layers.foldr (fun l r => .cache l.number l.ttl r) inner

namespace Layer

/-- The addresses of a host in the first layer where they are fresh. -/
def fresh? (layers : List Layer) (now : Nat) (host : Domain) (caches : Nat → Cache) :
    Option (List Ip) :=
  layers.findSome? fun l => (caches l.number).fresh? now host

/-- The layers outside of the first where addresses of the host are fresh. -/
def missed (layers : List Layer) (now : Nat) (host : Domain) (caches : Nat → Cache) :
    List Layer :=
  layers.takeWhile fun l => ((caches l.number).fresh? now host).isNone

/-- The caches after addresses of a host were stored in all layers. -/
def storeAll (layers : List Layer) (now : Nat) (host : Domain) (ips : List Ip)
    (caches : Nat → Cache) : Nat → Cache :=
  layers.foldr (fun l cs n =>
    if n = l.number then (cs l.number).store now l.ttl host ips else cs n) caches

/-- What layers do with an answer from inside: the innermost one is the first to
store its addresses. -/
def keeping (layers : List Layer) (host : Domain) : Answer → Lookup :=
  layers.foldr (fun l keep a => (keep a).bind (.storing l.number l.ttl host)) .done

end Layer

/-- Where a call is whose lookup in the layers is at this state. -/
def CallState.cachedBy (layers : List Layer) (host : Domain) : CallState → CallState
  | .waiting s asked next => .waiting s asked fun a => (next a).bind (Layer.keeping layers host)
  | .answered a => .answered a

/-- The caches after a lookup in the layers got to this state: if it is done, its
addresses are stored. -/
def CallState.keep (layers : List Layer) (now : Nat) (host : Domain) :
    CallState → (Nat → Cache) → Nat → Cache
  | .answered (.ok ips), caches => Layer.storeAll layers now host ips caches
  | .answered (.error _), caches => caches
  | .waiting _ _ _, caches => caches

namespace Layer

variable {l : Layer} {layers : List Layer} {inner : Resolver} {now number : Nat} {host : Domain}
  {ips : List Ip} {caches : Nat → Cache}

theorem keeping_cons (l : Layer) (layers : List Layer) (host : Domain) (a : Answer) :
    keeping (l :: layers) host a = (keeping layers host a).bind (.storing l.number l.ttl host) :=
  rfl

theorem storeAll_cons (l : Layer) (layers : List Layer) (now : Nat) (host : Domain)
    (ips : List Ip) (caches : Nat → Cache) (n : Nat) :
    storeAll (l :: layers) now host ips caches n =
      if n = l.number then (storeAll layers now host ips caches l.number).store now l.ttl host ips
      else storeAll layers now host ips caches n :=
  rfl

/-! ## Lookups through the layers -/

theorem settle_cons_fresh (h : (caches l.number).fresh? now host = some ips) :
    ((inner.cachedBy (l :: layers)).lookup host).settle now caches =
      (.answered (.ok ips), caches) := by
  simp [Resolver.cachedBy, Resolver.lookup, Lookup.settle, h]

theorem settle_cons_missed (h : (caches l.number).fresh? now host = none) :
    ((inner.cachedBy (l :: layers)).lookup host).settle now caches =
      (((inner.cachedBy layers).lookup host).bind
        (.storing l.number l.ttl host)).settle now caches := by
  simp [Resolver.cachedBy, Resolver.lookup, Lookup.settle, h]

theorem settle_keeping (layers : List Layer) (now : Nat) (host : Domain) (a : Answer)
    (caches : Nat → Cache) :
    (keeping layers host a).settle now caches =
      (.answered a, (CallState.answered a).keep layers now host caches) := by
  induction layers with
  | nil => cases a <;> rfl
  | cons l layers ih =>
    rw [keeping_cons, Lookup.settle_bind_answered ih]
    cases a <;> rfl

theorem settle_bind_keeping (layers : List Layer) (now : Nat) (host : Domain)
    (inside : Lookup) (caches : Nat → Cache) :
    (inside.bind (keeping layers host)).settle now caches =
      ((inside.settle now caches).1.cachedBy layers host,
        (inside.settle now caches).1.keep layers now host (inside.settle now caches).2) := by
  rcases h : inside.settle now caches with ⟨state, after⟩
  cases state with
  | waiting s asked next => exact Lookup.settle_bind_waiting h
  | answered a => rw [Lookup.settle_bind_answered h, settle_keeping]; rfl

theorem settle_cachedBy_fresh (h : fresh? layers now host caches = some ips) :
    ((inner.cachedBy layers).lookup host).settle now caches =
      (.answered (.ok ips), storeAll (missed layers now host caches) now host ips caches) := by
  induction layers with
  | nil => cases h
  | cons l layers ih =>
    cases hl : (caches l.number).fresh? now host with
    | some found =>
      simp only [fresh?, List.findSome?_cons, hl, Option.some.injEq] at h
      subst h
      rw [settle_cons_fresh hl]
      simp [missed, storeAll, hl]
    | none =>
      simp only [fresh?, List.findSome?_cons, hl] at h
      rw [settle_cons_missed hl, Lookup.settle_bind_answered (ih h)]
      simp [missed, hl, storeAll, Lookup.storing, Lookup.settle]

theorem settle_cachedBy_missed (h : fresh? layers now host caches = none) :
    ((inner.cachedBy layers).lookup host).settle now caches =
      ((inner.lookup host).bind (keeping layers host)).settle now caches := by
  induction layers with
  | nil => simp [Resolver.cachedBy, keeping, Lookup.bind_done]
  | cons l layers ih =>
    cases hl : (caches l.number).fresh? now host with
    | some found => simp [fresh?, hl] at h
    | none =>
      simp only [fresh?, List.findSome?_cons, hl] at h
      rw [settle_cons_missed hl, Lookup.settle_bind_congr (ih h), Lookup.bind_assoc]
      rfl

/-! ## What is stored -/

theorem find?_storeAll {key : Domain} {e : CacheEntry}
    (h : (storeAll layers now host ips caches number).find? key = some e) :
    (caches number).find? key = some e ∨ (key = host ∧ e.ips = ips) := by
  induction layers generalizing number with
  | nil => exact .inl h
  | cons l layers ih =>
    rw [storeAll_cons] at h
    split at h
    · rename_i hn
      subst hn
      by_cases hk : key = host
      · subst hk
        rw [Cache.find?_store_self] at h
        cases h
        exact .inr ⟨rfl, rfl⟩
      · rw [Cache.find?_store_of_ne _ _ _ _ hk] at h
        exact ih h
    · exact ih h

end Layer
end NetDial
