import NetDial.Proofs.Dial.Resolution
import NetDial.Proofs.Resolver.Freshness
import NetDial.Proofs.Session.Background

/-!
# Lookups that the deadline cuts off

A dial that looks up a host behind a cache stops waiting at its deadline and is
told of a timeout. The lookup goes on by itself, and when the resolver inside
answers the cache stores what it answers. So the deadline takes the answer from
the dial, but from nobody else: in the end the session is what it would be
without it, and who asks for the host next is answered by the cache.

**Results.**
* `await_bind`: a lookup that follows another starts where the other ends.
* `lookup_cache_missed`: through a cache that misses the host, the resolver inside
  is called once, and its addresses are stored.
* `runTo_lookup_cache`, `runTo_lookup_cache_end`: after its end a lookup is as if it
  had not been cut off.
* `lookup_after_lookup_cache`: what it found answers the next lookup.
* `late_lookup_completes`: all of this for the lookup of a dial.
-/
namespace NetDial.Session

variable {s : Session} {number ttl t : Nat} {inner : Resolver} {host : Domain} {l : Lookup}

/-! ## One lookup after another -/

/-- A lookup that is waited for to its end goes on where it ends. -/
theorem await_bind (l : Lookup) (f : Answer → Lookup) (s : Session) :
    s.await none (l.bind f) =
      match s.await none l with
      | (.answered a, u) => u.await none (f a)
      | (other, u) => (other, u) := by
  induction l generalizing s with
  | done a => rfl
  | consult number host next ih => exact ih _ s
  | store number ttl host ips next ih => exact ih (s.store number ttl host ips)
  | ask server host next ih =>
    cases hreply : s.reply server host with
    | mk delay a =>
      cases delay with
      | none =>
        rw [await_ask_forever next hreply]
        exact await_ask_forever _ hreply
      | some d =>
        rw [await_ask_answered next hreply, ← ih a]
        exact await_ask_answered _ hreply

theorem Undisturbed.bind {f : Answer → Lookup} (h : Undisturbed l s)
    (hf : ∀ a u, Undisturbed (f a) u) : Undisturbed (l.bind f) s := by
  induction l generalizing s with
  | done a => exact hf a s
  | consult number host next ih => exact ih _ h
  | store number ttl host ips next ih => exact ih h
  | ask server host next ih =>
    show Undisturbed (.ask server host fun a => (next a).bind f) s
    unfold Undisturbed at h ⊢
    split
    · trivial
    · rename_i d a hreply
      rw [hreply] at h
      exact ⟨h.1, ih a h.2⟩

/-- A lookup that took time leaves nothing undone that was due by its end. -/
theorem settled_await (h : Settled s) : Settled (s.await none l).2 := by
  induction l generalizing s with
  | done a => exact h
  | consult number host next ih => exact ih _ h
  | store number ttl host ips next ih => exact ih h
  | ask server host next ih =>
    cases hreply : s.reply server host with
    | mk delay a =>
      cases delay with
      | none =>
        rw [await_ask_forever next hreply]
        exact h
      | some d =>
        rw [await_ask_answered next hreply]
        exact ih a (settled_runTo (Nat.le_add_right s.now d))

theorem settled_await_of_lt (h : s.now < (s.await none l).2.now) : Settled (s.await none l).2 := by
  induction l generalizing s with
  | done a => exact absurd h (Nat.lt_irrefl s.now)
  | consult number host next ih => exact ih _ h
  | store number ttl host ips next ih => exact ih h
  | ask server host next ih =>
    cases hreply : s.reply server host with
    | mk delay a =>
      cases delay with
      | none =>
        rw [await_ask_forever next hreply] at h
        exact absurd h (Nat.lt_irrefl s.now)
      | some d =>
        rw [await_ask_answered next hreply]
        exact settled_await (settled_runTo (Nat.le_add_right s.now d))

/-- If nothing else is going on, a lookup leaves a cache alone that it avoids. -/
theorem cache_await_of_avoids (hquiet : s.tasks = []) (h : l.Avoids number) :
    (s.await none l).2.cache number = s.cache number := by
  induction l generalizing s with
  | done a => rfl
  | consult c host next ih => exact ih _ hquiet (h.2 _)
  | store c ttl host ips next ih =>
    have hstored : (s.store c ttl host ips).tasks = [] := hquiet
    exact (ih hstored h.2).trans (if_neg h.1.symm)
  | ask server host next ih =>
    have hask : (s.ask server host).tasks = [] := hquiet
    cases hreply : s.reply server host with
    | mk delay a =>
      cases delay with
      | none =>
        rw [await_ask_forever next hreply]
        rfl
      | some d =>
        rw [await_ask_answered next hreply, runTo_of_quiet hask]
        exact ih a hquiet (h a)

/-! ## Through a cache -/

/-- The session after a cache has stored what a lookup of the host came to:
addresses, and nothing else. -/
def keepAnswer (s : Session) (number ttl : Nat) (host : Domain) : Awaited → Session
  | .answered (.ok ips) => s.store number ttl host ips
  | _ => s

theorem await_storing (number ttl : Nat) (host : Domain) (a : Answer) (s : Session) :
    s.await none (.storing number ttl host a) =
      (.answered a, s.keepAnswer number ttl host (.answered a)) := by
  cases a <;> rfl

/-- Storing takes no time, and asks nobody. -/
theorem keepAnswer_frame (number ttl : Nat) (host : Domain) (w : Awaited) (s : Session) :
    (s.keepAnswer number ttl host w).now = s.now ∧
      (s.keepAnswer number ttl host w).record = s.record := by
  unfold keepAnswer
  split <;> exact ⟨rfl, rfl⟩

/-- Through a cache that misses the host the resolver inside is called, once, and
its addresses are stored when it is done. -/
theorem lookup_cache_missed (ttl : Nat) (inner : Resolver) (hmiss : s.fresh? number host = none) :
    s.lookup (.cache number ttl inner) none host =
      ((s.lookup inner none host).1,
        (s.lookup inner none host).2.keepAnswer number ttl host (s.lookup inner none host).1) := by
  have hbind : s.lookup (.cache number ttl inner) none host =
      s.await none ((inner.lookup host).bind (.storing number ttl host)) := by
    unfold lookup
    rw [Resolver.lookup, await, hmiss]
  have hinner : s.lookup inner none host = s.await none (inner.lookup host) := rfl
  rw [hbind, await_bind, hinner]
  rcases s.await none (inner.lookup host) with ⟨w, u⟩
  cases w with
  | answered a => exact await_storing number ttl host a u
  | late | forever => rfl

/-- A cache does not change when a lookup ends and with which answer. -/
theorem lookupEnd?_cache_missed (hmiss : s.fresh? number host = none) :
    s.lookupEnd? (.cache number ttl inner) host = s.lookupEnd? inner host := by
  have hlookup := lookup_cache_missed ttl inner hmiss
  unfold lookup at hlookup
  unfold lookupEnd? awaitEnd?
  rw [hlookup]
  rcases s.await none (inner.lookup host) with ⟨w, u⟩
  cases w with
  | answered a => simp only [(keepAnswer_frame number ttl host (.answered a) u).1]
  | late | forever => rfl

theorem undisturbed_cache_missed (hmiss : s.fresh? number host = none)
    (h : Undisturbed (inner.lookup host) s) :
    Undisturbed ((Resolver.cache number ttl inner).lookup host) s := by
  rw [Resolver.lookup, Undisturbed, hmiss]
  refine h.bind fun a u => ?_
  cases a <;> trivial

theorem answered_of_lookupEnd? {r : Resolver} {u : Nat} {a : Answer}
    (h : s.lookupEnd? r host = some (u, a)) :
    (s.lookup r none host).1 = .answered a ∧ (s.lookup r none host).2.now = u := by
  unfold lookupEnd? awaitEnd? at h
  unfold lookup
  split at h
  · rename_i b v hv
    cases h
    rw [hv]
    exact ⟨rfl, rfl⟩
  · cases h

/-- Through a cache, a lookup that ends with addresses leaves them stored at its
end. -/
theorem stored_of_lookupEnd? {u : Nat} {ips : List Ip} (hmiss : s.fresh? number host = none)
    (h : s.lookupEnd? inner host = some (u, .ok ips)) :
    ((s.lookup (.cache number ttl inner) none host).2.cache number).find? host =
      some ⟨ips, expiryAfter u ttl⟩ := by
  obtain ⟨hanswer, hnow⟩ := answered_of_lookupEnd? h
  have hstore := Cache.find?_store_self ((s.lookup inner none host).2.cache number) u ttl host ips
  rw [lookup_cache_missed ttl inner hmiss, hanswer]
  simpa [keepAnswer, store, cache, Memory.setCache, hnow] using hstore

/-- Through a cache, a lookup that ends with an error leaves the cache as it was, if
nothing else is going on. -/
theorem not_stored_of_lookupEnd? {u : Nat} {e : Error} (hmiss : s.fresh? number host = none)
    (hin : number ∉ inner.cacheNumbers) (hquiet : s.tasks = [])
    (h : s.lookupEnd? inner host = some (u, .error e)) :
    (s.lookup (.cache number ttl inner) none host).2.cache number = s.cache number := by
  obtain ⟨hanswer, -⟩ := answered_of_lookupEnd? h
  rw [lookup_cache_missed ttl inner hmiss, hanswer]
  exact cache_await_of_avoids hquiet (inner.lookup_avoids host hin)

/-- Addresses that are stored and fresh answer a lookup at once, and nothing
changes. -/
theorem lookup_of_stored {ips : List Ip} {expiry : Option Nat}
    (h : (s.cache number).find? host = some ⟨ips, expiry⟩)
    (hfresh : (CacheEntry.mk ips expiry).isFresh s.now = true) (deadline : Option Nat) :
    s.lookup (.cache number ttl inner) deadline host = (.answered (.ok ips), s) := by
  have hfound : s.fresh? number host = some ips :=
    Cache.fresh?_eq_some_iff.2 ⟨⟨ips, expiry⟩, h, hfresh, rfl⟩
  unfold lookup
  rw [Resolver.lookup, await, hfound, await]

/-! ## Cut off at a deadline -/

section

variable {u v : Nat} {a : Answer} {ips : List Ip} (hmiss : s.fresh? number host = none)
  (ht : s.now < t) (hl : Undisturbed (inner.lookup host) s)
include hmiss ht hl

/-- Once the call of the resolver inside has come to its end, it makes no difference
that the lookup was cut off. -/
theorem runTo_lookup_cache (hv : (s.lookup (.cache number ttl inner) (some t) host).2.now ≤ v)
    (hv' : (s.lookup inner none host).2.now ≤ v) :
    (s.lookup (.cache number ttl inner) (some t) host).2.runTo v =
      (s.lookup (.cache number ttl inner) none host).2.runTo v := by
  have hnow : (s.lookup (.cache number ttl inner) none host).2.now ≤ v := by
    rw [lookup_cache_missed ttl inner hmiss, (keepAnswer_frame ..).1]
    exact hv'
  exact runTo_await _ ht (undisturbed_cache_missed hmiss hl) hv hnow

/-- A lookup that is late is done at the instant at which it would be done if nobody
had cut it off. -/
theorem runTo_lookup_cache_end (hend : s.lookupEnd? inner host = some (u, a)) (hu : t ≤ u) :
    (s.lookup (.cache number ttl inner) (some t) host).2.runTo u =
      (s.lookup (.cache number ttl inner) none host).2 := by
  have hwhole : s.lookupEnd? (.cache number ttl inner) host = some (u, a) :=
    (lookupEnd?_cache_missed hmiss).trans hend
  have hnow := (answered_of_lookupEnd? hwhole).2
  have hcut : (s.lookup (.cache number ttl inner) (some t) host).2.now ≤ t :=
    (await_bounded _ (Nat.le_of_lt ht)).2
  have hsettled : Settled (s.lookup (.cache number ttl inner) none host).2 := by
    refine settled_await_of_lt ?_
    show s.now < (s.lookup (.cache number ttl inner) none host).2.now
    rw [hnow]
    exact Nat.lt_of_lt_of_le ht hu
  calc (s.lookup (.cache number ttl inner) (some t) host).2.runTo u
      = (s.lookup (.cache number ttl inner) none host).2.runTo u :=
        runTo_lookup_cache hmiss ht hl (Nat.le_trans hcut hu)
          (Nat.le_of_eq (answered_of_lookupEnd? hend).2)
    _ = (s.lookup (.cache number ttl inner) none host).2 := by
        rw [← hnow]
        exact runTo_self hsettled

/-- The next lookup of the host is answered with what was found, before anything else
is due and while it is fresh. -/
theorem lookup_after_lookup_cache (hend : s.lookupEnd? inner host = some (u, .ok ips))
    (huv : u ≤ v) (hv : (s.lookup (.cache number ttl inner) (some t) host).2.now ≤ v)
    (hlater : ∀ k ∈ (s.lookup (.cache number ttl inner) none host).2.tasks, v < k.due)
    (hfresh : ttl = 0 ∨ instantAfter? u ttl = none ∨ v < u + ttl) (deadline : Option Nat) :
    ((s.lookup (.cache number ttl inner) (some t) host).2.runTo v).lookup
        (.cache number ttl inner) deadline host =
      (.answered (.ok ips), (s.lookup (.cache number ttl inner) (some t) host).2.runTo v) := by
  have hwhole : s.lookupEnd? (.cache number ttl inner) host = some (u, .ok ips) :=
    (lookupEnd?_cache_missed hmiss).trans hend
  have hnow : ((s.lookup (.cache number ttl inner) none host).2.runTo v).now = v := by
    rw [runTo_now, (answered_of_lookupEnd? hwhole).2]
    exact Nat.max_eq_right huv
  have hstored : (((s.lookup (.cache number ttl inner) none host).2.runTo v).cache number).find?
      host = some ⟨ips, expiryAfter u ttl⟩ := by
    rw [runTo_of_none (takeDue_eq_none_iff.2 hlater)]
    exact stored_of_lookupEnd? hmiss hend
  rw [runTo_lookup_cache hmiss ht hl hv ((answered_of_lookupEnd? hend).2 ▸ huv)]
  refine lookup_of_stored hstored ?_ deadline
  rw [hnow]
  exact (isFresh_expiryAfter_iff ips u ttl v).2 hfresh

end

/-! ## The dial's lookup -/

variable {d : Directory} {n : Network} {c : Capability} {zone : Option Text} {port : UInt16}

theorem nameResult_eq_timeout_iff {w : Awaited} :
    nameResult c n zone port w = some (.error .timeout) ↔ w = .late := by
  cases w with
  | late => simp [nameResult]
  | forever => simp [nameResult]
  | answered a =>
    cases a with
    | error e => simp [nameResult, ResolveError.resolution, ResolveError.timeout]
    | ok ips =>
      simp only [nameResult, Target.narrowed, Option.some.injEq, reduceCtorEq, iff_false]
      split <;> simp [ResolveError.noSuitableAddress, ResolveError.timeout]

/-- A name is resolved with the resolver inside a cache and a deadline `t` as if the
lookup were not cut off: `lookup inner none` is the one call of the resolver inside,
which nobody cuts off. -/
structure SurvivesDeadline (s : Session) (d : Directory) (inner : Resolver) (number ttl : Nat)
    (n : Network) (host : Domain) (zone : Option Text) (port : UInt16) (t : Nat) : Prop where
  /-- Without a deadline the resolver inside is called once, and its addresses are
  stored. -/
  calledOnce : s.lookup d.resolver none host =
    ((s.lookup inner none host).1,
      (s.lookup inner none host).2.keepAnswer number ttl host (s.lookup inner none host).1)
  /-- A timeout is reported exactly if that call has not ended before the
  deadline. -/
  timeout : (s.resolveName d (some t) n host zone port).1 = some (.error .timeout) ↔
    ∀ u a, s.lookupEnd? inner host = some (u, a) → t ≤ u
  /-- A call that ends before the deadline is resolved as without one. -/
  inTime : ∀ u a, s.lookupEnd? inner host = some (u, a) → u < t →
    s.resolveName d (some t) n host zone port = s.resolveName d none n host zone port
  /-- Once the call has come to its end, the session is as without the deadline. -/
  same : ∀ v, (s.resolveName d (some t) n host zone port).2.now ≤ v →
    (s.lookup inner none host).2.now ≤ v →
    (s.resolveName d (some t) n host zone port).2.runTo v =
      (s.resolveName d none n host zone port).2.runTo v
  /-- So it is at the very instant at which a late call ends. -/
  sameAtEnd : ∀ u a, s.lookupEnd? inner host = some (u, a) → t ≤ u →
    (s.resolveName d (some t) n host zone port).2.runTo u =
      (s.resolveName d none n host zone port).2
  /-- The cache has the addresses, fresh for `ttl` from the end of the call. -/
  stored : ∀ u ips, s.lookupEnd? inner host = some (u, .ok ips) →
    ((s.resolveName d none n host zone port).2.cache number).find? host =
      some ⟨ips, expiryAfter u ttl⟩
  /-- It has nothing new after an error. -/
  notStored : ∀ u e, s.lookupEnd? inner host = some (u, .error e) →
    number ∉ inner.cacheNumbers → s.tasks = [] →
    (s.resolveName d none n host zone port).2.cache number = s.cache number
  /-- Before anything else is due, a lookup of the host is answered with these
  addresses while they are fresh. No server is asked, as nothing changes. -/
  answersNext : ∀ u ips v, s.lookupEnd? inner host = some (u, .ok ips) → u ≤ v →
    (s.resolveName d (some t) n host zone port).2.now ≤ v →
    (∀ k ∈ (s.resolveName d none n host zone port).2.tasks, v < k.due) →
    ttl = 0 ∨ instantAfter? u ttl = none ∨ v < u + ttl →
    ∀ deadline, ((s.resolveName d (some t) n host zone port).2.runTo v).lookup d.resolver deadline
        host =
      (.answered (.ok ips), (s.resolveName d (some t) n host zone port).2.runTo v)
  /-- A server inside is asked once in all. -/
  askedOnce : ∀ server v, inner = .server server → s.tasks = [] →
    (s.resolveName d (some t) n host zone port).2.now ≤ v →
    (s.lookup inner none host).2.now ≤ v →
    ((s.resolveName d (some t) n host zone port).2.runTo v).record.questions =
      s.record.questions ++ [⟨server, host, s.now⟩]

/-- **Late lookups.** A lookup through a cache that misses the host survives a
deadline that has not passed, unless it is disturbed. -/
theorem late_lookup_completes (hd : d.resolver = .cache number ttl inner)
    (hmiss : s.fresh? number host = none) (ht : s.now < t)
    (hl : Undisturbed (inner.lookup host) s) (n : Network) (zone : Option Text) (port : UInt16) :
    SurvivesDeadline s d inner number ttl n host zone port t := by
  obtain ⟨_, c, services⟩ := d
  subst hd
  have hin : ∀ u, some t = some u → s.now < u := fun u hu => Option.some.inj hu ▸ ht
  have hcut : s.resolveName ⟨.cache number ttl inner, c, services⟩ (some t) n host zone port =
      (nameResult c n zone port (s.lookup (.cache number ttl inner) (some t) host).1,
        (s.lookup (.cache number ttl inner) (some t) host).2) :=
    resolveName_eq_lookup hin host zone port
  have hwhole : s.resolveName ⟨.cache number ttl inner, c, services⟩ none n host zone port =
      (nameResult c n zone port (s.lookup (.cache number ttl inner) none host).1,
        (s.lookup (.cache number ttl inner) none host).2) :=
    resolveName_eq_lookup (by simp) host zone port
  have hend : s.lookupEnd? (.cache number ttl inner) host = s.lookupEnd? inner host :=
    lookupEnd?_cache_missed hmiss
  constructor
  case calledOnce => exact lookup_cache_missed ttl inner hmiss
  case timeout =>
    rw [hcut, nameResult_eq_timeout_iff, lookup_eq_cutOff _ host hin, hend, cutOff_eq_late_iff]
    simp
  case inTime =>
    intro u a hu hlt
    have hsame : s.lookup (.cache number ttl inner) (some t) host =
        s.lookup (.cache number ttl inner) none host :=
      await_eq_of_awaitEnd? _ (hend.trans hu) hlt
    rw [hcut, hwhole, hsame]
  case same =>
    rw [hcut, hwhole]
    exact fun v hv hv' => runTo_lookup_cache hmiss ht hl hv hv'
  case sameAtEnd =>
    rw [hcut, hwhole]
    exact fun u a hu hle => runTo_lookup_cache_end hmiss ht hl hu hle
  case stored =>
    rw [hwhole]
    exact fun u ips hu => stored_of_lookupEnd? hmiss hu
  case notStored =>
    rw [hwhole]
    exact fun u e hu hnumber hquiet => not_stored_of_lookupEnd? hmiss hnumber hquiet hu
  case answersNext =>
    rw [hcut, hwhole]
    exact fun u ips v hu huv hv hlater hfresh deadline =>
      lookup_after_lookup_cache hmiss ht hl hu huv hv hlater hfresh deadline
  case askedOnce =>
    rintro server v rfl hquiet hv hv'
    rw [hcut] at hv ⊢
    have hleft : (s.lookup (.cache number ttl (.server server)) none host).2.tasks = [] :=
      await_quiet _ hquiet
    rw [runTo_lookup_cache hmiss ht hl hv hv', questions_runTo_of_quiet hleft,
      lookup_cache_missed ttl _ hmiss, (keepAnswer_frame ..).2]
    exact questions_lookup_server_forever hquiet server host

/-- A session whose servers know one address of every host, and take their time. -/
def slowServers : Session where
  servers := fun _ _ _ => ⟨some 5, .ok [.v4 ⟨192, 0, 2, 1⟩]⟩

/-- A lookup that would end at `5` survives the deadline at `3`. -/
theorem late_lookup_completes_slow :
    slowServers.lookupEnd? (.server .system) .localhost =
        some (5, .ok [.v4 ⟨192, 0, 2, 1⟩]) ∧
      SurvivesDeadline slowServers ⟨.cache 0 10 (.server .system), .dualStack, .wellKnown⟩
        (.server .system) 0 10 (.tcp .any) .localhost none 80 3 := by
  constructor
  · show slowServers.awaitEnd? (.ask .system .localhost .done) = _
    rw [awaitEnd?_ask rfl]
    show some (((slowServers.ask .system .localhost).runTo (slowServers.now + 5)).now, _) = _
    rw [ask_runTo_now]
    rfl
  · exact late_lookup_completes rfl rfl (by decide) (undisturbed_of_quiet _ rfl) _ none 80

end NetDial.Session
