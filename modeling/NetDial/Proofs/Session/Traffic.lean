import NetDial.Proofs.Resolver.Settle
import NetDial.Proofs.Session.Waiting

/-!
# Sessions are traffic

What a session does with a resolver is one way of the many that its traffic may
go: there the servers' replies and the clock choose the steps. `Follows` says that
a traffic is where the session is. They agree on the clock and the caches, and each
lookup that goes on by itself in the session is a call that waits in the traffic,
with the reply that it is going to have. So what holds of all runs of a resolver's
traffic holds of the lookups in a session.

**Results.**
* `run_settled`, `runTo_follows`: a lookup that goes on by itself takes the steps of
  its call.
* `await_settled`: so does one that is waited for, and it has the same answer.
* `lookup_is_call`: so the lookups in a session are calls.
-/
namespace NetDial

namespace Traffic

variable {r : Resolver} {t u v : Traffic} {i : Nat} {host : Domain}

/-- The traffic after a lookup was run on for a call. -/
def settleCall (t : Traffic) (i : Nat) (host : Domain) (l : Lookup) : Traffic :=
  { t with
    caches := (l.settle t.now t.caches).2
    calls := t.calls.set i ⟨host, (l.settle t.now t.caches).1⟩ }

theorem step_reply_of_waiting {srv : Server} {asked : Domain} {next : Answer → Lookup}
    (h : t.calls[i]? = some ⟨host, .waiting srv asked next⟩) (a : Answer) :
    step r t (.reply i a) = some (t.settleCall i host (next a)) := by
  simp only [step, h, settleCall]

/-- Some steps lead from one traffic to the other. -/
def Reaches (r : Resolver) (t u : Traffic) : Prop :=
  ∃ steps, run r t steps = some u

theorem Reaches.refl (r : Resolver) (t : Traffic) : Reaches r t t :=
  ⟨[], rfl⟩

theorem Reaches.trans (h : Reaches r t u) (h' : Reaches r u v) : Reaches r t v := by
  obtain ⟨xs, hx⟩ := h
  obtain ⟨ys, hy⟩ := h'
  refine ⟨xs ++ ys, ?_⟩
  rw [run, List.foldlM_append]
  exact (congrArg (· >>= fun u => run r u ys) hx).trans hy

theorem Reaches.step {s : TrafficStep} (h : step r t s = some u) : Reaches r t u :=
  ⟨[s], by rw [run_cons, h]; rfl⟩

end Traffic

/-- The lookup that a task goes on with. -/
def Task.rest? (k : Task) : Option Lookup :=
  match k.work with
  | .lookup rest _ => some rest
  | .attempt _ _ => none

namespace Session

open Traffic (Reaches)

/-- The traffic is where the session is. The lookups that go on by themselves are
these, each with the number of its call. -/
structure Follows (t : Traffic) (s : Session) (waits : List (Lookup × Nat)) : Prop where
  now : t.now = s.now
  caches : t.caches = s.memory.caches
  tasks : s.tasks.filterMap Task.rest? = waits.map Prod.fst
  distinct : (waits.map Prod.snd).Nodup
  waiting : ∀ w ∈ waits, ∃ host srv asked next a,
    t.calls[w.2]? = some ⟨host, .waiting srv asked next⟩ ∧ w.1 = next a

variable {r : Resolver} {t u v : Traffic} {s s' : Session} {waits ws vs : List (Lookup × Nat)}
  {mine : List Nat} {i : Nat} {host asked : Domain} {srv : Server} {next : Answer → Lookup}

namespace Follows

theorem fresh? (H : Follows t s waits) (number : Nat) (asked : Domain) :
    (t.caches number).fresh? t.now asked = s.fresh? number asked := by
  rw [Session.fresh?, Session.cache, H.now, H.caches]

theorem store (H : Follows t s waits) (number ttl : Nat) (asked : Domain) (ips : List Ip) :
    Follows { t with caches := fun n =>
      if n = number then (t.caches number).store t.now ttl asked ips else t.caches n }
      (s.store number ttl asked ips) waits := by
  refine { H with caches := ?_ }
  simp only [H.now, H.caches]
  rfl

theorem clear (H : Follows t s waits) (number : Nat) :
    Follows { t with caches := fun n => if n = number then .empty else t.caches n }
      (s.clear number) waits := by
  refine { H with caches := ?_ }
  simp only [H.caches]
  rfl

/-- The clock may go on while all wait. -/
theorem tick (H : Follows t s waits) (n : Nat) :
    Follows { t with now := n } { s with now := n } waits :=
  { H with now := rfl }

/-- A call that no task goes on with may change. -/
theorem set (H : Follows t s waits) (hi : i ∉ waits.map Prod.snd) (c : Call) :
    Follows { t with calls := t.calls.set i c } s waits where
  now := H.now
  caches := H.caches
  tasks := H.tasks
  distinct := H.distinct
  waiting w hw := by
    have hne : i ≠ w.2 := fun heq => hi (heq ▸ List.mem_map_of_mem hw)
    rw [List.getElem?_set_ne hne]
    exact H.waiting w hw

/-- A server is asked for a call. -/
theorem ask (H : Follows t s waits) (hi : i ∉ waits.map Prod.snd) (host : Domain) (srv : Server)
    (asked : Domain) (next : Answer → Lookup) :
    Follows { t with calls := t.calls.set i ⟨host, .waiting srv asked next⟩ } (s.ask srv asked)
      waits :=
  { H.set hi ⟨host, .waiting srv asked next⟩ with }

/-- A call is left to go on by itself when its reply comes. -/
theorem defer (H : Follows t s waits) (hi : i ∉ waits.map Prod.snd)
    (hwait : t.calls[i]? = some ⟨host, .waiting srv asked next⟩) (a : Answer) (due : Nat)
    (ticket : Option Nat) :
    Follows t (s.defer due (.lookup (next a) ticket)) (waits ++ [(next a, i)]) where
  now := H.now
  caches := H.caches
  tasks := by simp [Session.defer, H.tasks, Task.rest?]
  distinct := by
    rw [List.map_append]
    exact (List.perm_append_singleton i (waits.map Prod.snd)).nodup_iff.2
      (List.nodup_cons.2 ⟨hi, H.distinct⟩)
  waiting w hw := by
    rcases List.mem_append.1 hw with hw | hw
    · exact H.waiting w hw
    · rw [List.mem_singleton.1 hw]
      exact ⟨host, srv, asked, next, a, hwait, rfl⟩

theorem endLate (H : Follows t s waits) (a : Attempt) (res : Resolver) :
    Follows t (s.endLate a res) waits := by
  unfold Session.endLate
  split <;> exact { H with }

end Follows

/-- Steps lead from a traffic to where the session is, and touch only the calls in
`mine`. -/
structure Led (r : Resolver) (t : Traffic) (mine : List Nat) (s : Session) (u : Traffic)
    (waits : List (Lookup × Nat)) : Prop where
  reaches : Reaches r t u
  follows : Follows u s waits
  owned : waits.map Prod.snd ⊆ mine
  others : ∀ i ∉ mine, u.calls[i]? = t.calls[i]?

namespace Led

theorem refl (r : Resolver) (H : Follows t s waits) : Led r t (waits.map Prod.snd) s t waits :=
  ⟨.refl r t, H, List.Subset.refl _, fun _ _ => rfl⟩

theorem mono {more : List Nat} (h : Led r t mine s u waits) (hsub : mine ⊆ more) :
    Led r t more s u waits where
  reaches := h.reaches
  follows := h.follows
  owned := List.Subset.trans h.owned hsub
  others i hi := h.others i fun hmem => hi (hsub hmem)

theorem trans (h : Led r t mine s u waits) (h' : Led r u (waits.map Prod.snd) s' v ws) :
    Led r t mine s' v ws where
  reaches := h.reaches.trans h'.reaches
  follows := h'.follows
  owned := List.Subset.trans h'.owned h.owned
  others i hi := (h'.others i fun hmem => hi (h.owned hmem)).trans (h.others i hi)

/-- The clock goes on. -/
theorem tick (r : Resolver) {n : Nat} (hn : s.now ≤ n) (H : Follows t s waits) :
    Led r t (waits.map Prod.snd) { s with now := n } { t with now := n } waits := by
  have hstep : Traffic.step r t (.tick (n - s.now)) = some { t with now := n } := by
    simp [Traffic.step, H.now, Nat.add_sub_cancel' hn]
  exact ⟨.step hstep, H.tick n, List.Subset.refl _, fun _ _ => rfl⟩

/-- A call that waits has its reply, and goes on from there. -/
theorem reply (h : Led r t mine s u waits)
    (hwait : u.calls[i]? = some ⟨host, .waiting srv asked next⟩) (a : Answer)
    (h' : Led r (u.settleCall i host (next a)) (i :: waits.map Prod.snd) s' v ws) :
    Led r t (i :: mine) s' v ws where
  reaches := (h.reaches.trans (.step (Traffic.step_reply_of_waiting hwait a))).trans h'.reaches
  follows := h'.follows
  owned := List.Subset.trans h'.owned (List.cons_subset_cons i h.owned)
  others k hk := by
    rw [List.mem_cons, not_or] at hk
    have hk' : k ∉ i :: waits.map Prod.snd := by
      rw [List.mem_cons, not_or]
      exact ⟨hk.1, fun hmem => hk.2 (h.owned hmem)⟩
    rw [h'.others k hk', ← h.others k hk.2]
    exact List.getElem?_set_ne (Ne.symm hk.1)

end Led

/-! ## Lookups that go on by themselves -/

/-- A lookup that the session runs on, once the traffic ran it on for its call. -/
theorem run_settled (r : Resolver) (ticket : Option Nat) (l : Lookup) (H : Follows t s waits)
    (hfree : i ∉ waits.map Prod.snd) (hi : i < t.calls.length) (host : Domain) :
    ∃ u ws, Led r (t.settleCall i host l) (i :: waits.map Prod.snd) (s.run ticket l) u ws := by
  induction l generalizing s t with
  | done a =>
    have hdone : Follows (t.settleCall i host (.done a)) (s.run ticket (.done a)) waits := by
      have hset := H.set hfree ⟨host, .answered a⟩
      cases ticket <;> exact { hset with }
    exact ⟨_, waits, (Led.refl r hdone).mono (List.subset_cons_self _ _)⟩
  | consult number asked next ih =>
    simp only [run, ← H.fresh? number asked]
    exact ih _ H hi
  | store number ttl asked ips next ih => exact ih (H.store number ttl asked ips) hi
  | ask srv asked next ih =>
    have hasked := Led.refl r (H.ask hfree host srv asked next)
    have hwait := List.getElem?_set_self (a := (⟨host, .waiting srv asked next⟩ : Call)) hi
    unfold run
    split
    · exact ⟨_, waits, hasked.mono (List.subset_cons_self _ _)⟩
    · -- the server replies at once, so the call goes on at once
      rename_i a _
      obtain ⟨u, ws, h⟩ := ih a hasked.follows (by simpa using hi)
      exact ⟨u, ws, hasked.reply hwait a h⟩
    · rename_i d a _
      have hdefer := hasked.follows.defer hfree hwait a (s.now + (d + 1)) ticket
      exact ⟨_, _, (Led.refl r hdefer).mono (by simp)⟩

theorem doTask_follows (r : Resolver) {n : Nat} {k : Task} {others : List Task}
    (H : Follows t s waits) (h : takeDue n s.tasks = some (k, others)) :
    ∃ u ws, Led r t (waits.map Prod.snd) (s.doTask k others) u ws := by
  obtain ⟨before, after, hks, rfl, -⟩ := takeDue_split h
  have hclock := Led.tick r (Nat.le_max_left s.now k.due) H
  have htasks := H.tasks
  rw [hks, List.filterMap_append] at htasks
  cases hwork : k.work with
  | attempt a res =>
    have hk : k.rest? = none := by simp [Task.rest?, hwork]
    have hothers : Follows { t with now := Nat.max s.now k.due }
        { s with now := Nat.max s.now k.due, tasks := before ++ after } waits := by
      refine { hclock.follows with tasks := ?_ }
      rw [List.filterMap_append, ← htasks, List.filterMap_cons_none hk]
    simp only [doTask, perform, hwork]
    exact ⟨_, waits, { hclock with follows := hothers.endLate a res }⟩
  | lookup rest ticket =>
    have hk : k.rest? = some rest := by simp [Task.rest?, hwork]
    rw [List.filterMap_cons_some hk, eq_comm, List.map_eq_append_iff] at htasks
    obtain ⟨xs, ys, rfl, hxs, hys⟩ := htasks
    obtain ⟨w, zs, rfl, rfl, hzs⟩ := List.map_eq_cons_iff.1 hys
    have hperm : (xs ++ w :: zs).Perm (w :: (xs ++ zs)) := List.perm_middle
    have hmine := hperm.map Prod.snd
    obtain ⟨hfree, hdistinct⟩ := List.nodup_cons.1 (hmine.nodup_iff.1 H.distinct)
    have hothers : Follows { t with now := Nat.max s.now k.due }
        { s with now := Nat.max s.now k.due, tasks := before ++ after } (xs ++ zs) := by
      refine { hclock.follows with tasks := ?_, distinct := hdistinct, waiting := fun v hv => ?_ }
      · rw [List.filterMap_append, List.map_append, hxs, hzs]
      · exact H.waiting v (hperm.mem_iff.2 (List.mem_cons_of_mem w hv))
    -- the rest of the lookup is what its call does with the reply
    obtain ⟨host, srv, asked, next, a, hwait, hrest⟩ :=
      H.waiting w (hperm.mem_iff.2 List.mem_cons_self)
    have hi : w.2 < t.calls.length := (List.getElem?_eq_some_iff.1 hwait).1
    obtain ⟨u, ws, hrun⟩ := run_settled r ticket (next a) hothers hfree hi host
    have htaken : Led r t ((xs ++ zs).map Prod.snd) _ _ _ :=
      ⟨hclock.reaches, hothers, List.Subset.refl _, fun _ _ => rfl⟩
    simp only [doTask, perform, hwork, hrest]
    exact ⟨u, ws, (htaken.reply hwait a hrun).mono hmine.symm.subset⟩

/-- Time that passes takes on the calls that tasks go on with, and no others. -/
theorem runTo_follows (r : Resolver) (n : Nat) (H : Follows t s waits) :
    ∃ u ws, Led r t (waits.map Prod.snd) (s.runTo n) u ws := by
  fun_induction runTo s n generalizing t waits with
  | case1 s h => exact ⟨_, waits, .tick r (Nat.le_max_left s.now n) H⟩
  | case2 s k others h ih =>
    obtain ⟨u, ws, hu⟩ := doTask_follows r H h
    obtain ⟨v, vs, hv⟩ := ih hu.follows
    exact ⟨v, vs, hu.trans hv⟩

/-! ## Lookups that are waited for -/

/-- A lookup that is waited for, once the traffic ran it on for its call. -/
theorem await_settled (r : Resolver) (deadline : Option Nat) (l : Lookup) (H : Follows t s waits)
    (hfree : i ∉ waits.map Prod.snd) (hi : i < t.calls.length) (host : Domain) :
    ∃ u ws, Led r (t.settleCall i host l) (i :: waits.map Prod.snd) (s.await deadline l).2 u ws ∧
      ∀ a, (s.await deadline l).1 = .answered a → u.calls[i]? = some ⟨host, .answered a⟩ := by
  induction l generalizing s t waits with
  | done a =>
    have hdone := Led.refl r (H.set hfree ⟨host, .answered a⟩)
    refine ⟨_, waits, hdone.mono (List.subset_cons_self _ _), fun b hb => ?_⟩
    cases hb
    exact List.getElem?_set_self hi
  | consult number asked next ih =>
    simp only [await, ← H.fresh? number asked]
    exact ih _ H hfree hi
  | store number ttl asked ips next ih => exact ih (H.store number ttl asked ips) hfree hi
  | ask srv asked next ih =>
    have hasked := Led.refl r (H.ask hfree host srv asked next)
    have hwait := List.getElem?_set_self (a := (⟨host, .waiting srv asked next⟩ : Call)) hi
    cases hreply : s.reply srv asked with
    | mk delay a =>
      cases delay with
      | none =>
        cases deadline with
        | none =>
          rw [await_ask_forever next hreply]
          exact ⟨_, waits, hasked.mono (List.subset_cons_self _ _), fun b hb => by cases hb⟩
        | some n =>
          rw [await_ask_silent next hreply]
          obtain ⟨u, ws, hu⟩ := runTo_follows r n hasked.follows
          exact ⟨u, ws, hu.mono (List.subset_cons_self _ _), fun b hb => by cases hb⟩
      | some d =>
        by_cases hd : ∀ n, deadline = some n → s.now + d < n
        · rw [await_ask_in_time hreply hd]
          -- other calls go on first, and this one still waits when its reply comes
          obtain ⟨u, ws, hu⟩ := runTo_follows r (s.now + d) hasked.follows
          have hwait' := (hu.others i hfree).trans hwait
          have hfree' : i ∉ ws.map Prod.snd := fun hmem => hfree (hu.owned hmem)
          obtain ⟨v, vs, hv, hend⟩ :=
            ih a hu.follows hfree' (List.getElem?_eq_some_iff.1 hwait').1
          exact ⟨v, vs, hu.reply hwait' a hv, hend⟩
        · obtain ⟨n, rfl, hle⟩ : ∃ n, deadline = some n ∧ n ≤ s.now + d := by
            simpa using hd
          rw [await_ask_late hreply hle]
          have hdefer := hasked.follows.defer hfree hwait a (s.now + d) none
          obtain ⟨u, ws, hu⟩ := runTo_follows r n hdefer
          exact ⟨u, ws, hu.mono (by simp), fun b hb => by cases hb⟩

/-! ## Sessions that use one resolver -/

/-- A new call is made in a place of its own, of which no task knows. -/
theorem Follows.call (H : Follows t s waits) (r : Resolver) (host : Domain) :
    ∃ t', Follows t' s waits ∧ t.calls.length ∉ waits.map Prod.snd ∧
      t.calls.length < t'.calls.length ∧
      Traffic.step r t (.call host) =
        some (t'.settleCall t.calls.length host (r.lookup host)) := by
  have hlt : ∀ w ∈ waits, w.2 < t.calls.length := by
    intro w hw
    obtain ⟨host, srv, asked, next, a, hwait, -⟩ := H.waiting w hw
    exact (List.getElem?_eq_some_iff.1 hwait).1
  refine ⟨{ t with calls := t.calls ++ [⟨host, .answered (.ok [])⟩] },
    { H with waiting := fun w hw => ?_ }, ?_, by simp, ?_⟩
  · obtain ⟨host, srv, asked, next, a, hwait, hrest⟩ := H.waiting w hw
    refine ⟨host, srv, asked, next, a, ?_, hrest⟩
    rw [List.getElem?_append_left (hlt w hw)]
    exact hwait
  · intro hmem
    obtain ⟨w, hw, heq⟩ := List.mem_map.1 hmem
    exact Nat.lt_irrefl _ (heq ▸ hlt w hw)
  · simp [Traffic.step_call, Traffic.settleCall]

/-- What may be done with a resolver in a session that uses no other. -/
inductive Uses (r : Resolver) : Session → Prop where
  | start (servers : Servers) : Uses r { servers }
  | lookup {s : Session} (h : Uses r s) (deadline : Option Nat) (host : Domain) :
      Uses r (s.lookup r deadline host).2
  | run {s : Session} (h : Uses r s) (ticket : Option Nat) (host : Domain) :
      Uses r (s.run ticket (r.lookup host))
  | clear {s : Session} (h : Uses r s) (number : Nat) : Uses r (s.clear number)
  | runTo {s : Session} (h : Uses r s) (n : Nat) : Uses r (s.runTo n)

/-- A lookup in a session is the next call, with the same answer. -/
theorem lookup_follows (H : Follows t s waits) (r : Resolver) (deadline : Option Nat)
    (host : Domain) :
    ∃ after u ws, Traffic.run r t (.call host :: after) = some u ∧
      Follows u (s.lookup r deadline host).2 ws ∧
      ∀ a, (s.lookup r deadline host).1 = .answered a →
        u.calls[t.calls.length]? = some ⟨host, .answered a⟩ := by
  obtain ⟨t', hfollows, hfree, hi, hcall⟩ := H.call r host
  obtain ⟨u, ws, hu, hend⟩ := await_settled r deadline (r.lookup host) hfollows hfree hi host
  obtain ⟨after, hafter⟩ := hu.reaches
  exact ⟨after, u, ws, by rw [Traffic.run_cons, hcall]; exact hafter, hu.follows, hend⟩

theorem uses_follows (h : Uses r s) : ∃ t waits, Reaches r {} t ∧ Follows t s waits := by
  induction h with
  | start servers => exact ⟨{}, [], .refl r _, rfl, rfl, rfl, List.nodup_nil, by simp⟩
  | lookup h deadline host ih =>
    obtain ⟨t, waits, ht, H⟩ := ih
    obtain ⟨after, u, ws, hu, hfollows, -⟩ := lookup_follows H r deadline host
    exact ⟨u, ws, ht.trans ⟨_, hu⟩, hfollows⟩
  | run h ticket host ih =>
    obtain ⟨t, waits, ht, H⟩ := ih
    obtain ⟨t', hfollows, hfree, hi, hcall⟩ := H.call r host
    obtain ⟨u, ws, hu⟩ := run_settled r ticket (r.lookup host) hfollows hfree hi host
    exact ⟨u, ws, ht.trans ((Reaches.step hcall).trans hu.reaches), hu.follows⟩
  | clear h number ih =>
    obtain ⟨t, waits, ht, H⟩ := ih
    have hstep : Traffic.step r t (.clear number) = some _ := rfl
    exact ⟨_, waits, ht.trans (.step hstep), H.clear number⟩
  | runTo h n ih =>
    obtain ⟨t, waits, ht, H⟩ := ih
    obtain ⟨u, ws, hu⟩ := runTo_follows r n H
    exact ⟨u, ws, ht.trans hu.reaches, hu.follows⟩

/-- **Sessions are traffic.** Whatever was done with a resolver in a session, there is
a run of its traffic to where the session is. A lookup is the next call of this run,
which has the answer of the lookup once the session has it. -/
theorem lookup_is_call (h : Uses r s) (deadline : Option Nat) (host : Domain) :
    ∃ before t after u, Traffic.run r {} before = some t ∧
      t.now = s.now ∧ t.caches = s.memory.caches ∧
      Traffic.run r t (.call host :: after) = some u ∧
      u.now = (s.lookup r deadline host).2.now ∧
      u.caches = (s.lookup r deadline host).2.memory.caches ∧
      ∀ a, (s.lookup r deadline host).1 = .answered a →
        u.calls[t.calls.length]? = some ⟨host, .answered a⟩ := by
  obtain ⟨t, waits, ⟨before, hbefore⟩, H⟩ := uses_follows h
  obtain ⟨after, u, ws, hu, hfollows, hend⟩ := lookup_follows H r deadline host
  exact ⟨before, t, after, u, hbefore, H.now, H.caches, hu, hfollows.now, hfollows.caches, hend⟩

end Session
end NetDial
