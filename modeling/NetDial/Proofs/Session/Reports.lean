import NetDial.Proofs.Session.Waiting

/-!
# What servers hear of attempts

An attempt that ends is reported to a resolver, and every server in it hears of
it. An attempt that was left to itself is reported when it is due, whoever waits
for what then. So what the servers hear by an instant is what they have heard
and what the tasks that are due by then have yet to report (`heardBy`). Time
that passes makes the second part the first and keeps both together: no report
is lost by it and none is made twice.

**Results.**
* `notify_of_wraps`, `notify_chain`: a resolver passes on what it is told.
* `tells_runTo`, `tells_await`: waiting adds nothing to what is heard by a later
  instant.
* `heard_runTo`: once the time has passed, all of it has been heard.
-/
namespace NetDial

/-! ## Resolvers inside resolvers -/

namespace Resolver

/-- The resolver is the other one in caches, boxes and shares, any number of
them. -/
inductive Wraps : Resolver → Resolver → Prop where
  | refl (r : Resolver) : Wraps r r
  | cache (number ttl : Nat) {r q : Resolver} (h : Wraps r q) : Wraps (.cache number ttl r) q
  | boxed {r q : Resolver} (h : Wraps r q) : Wraps (.boxed r) q
  | shared {r q : Resolver} (h : Wraps r q) : Wraps (.shared r) q

theorem servers_of_wraps {r q : Resolver} (h : r.Wraps q) : r.servers = q.servers := by
  induction h with
  | refl r => rfl
  | cache number ttl h ih => rw [servers, ih]
  | boxed h ih => rw [servers, ih]
  | shared h ih => rw [servers, ih]

theorem serversOf_eq (members : List Resolver) : serversOf members = members.flatMap servers := by
  induction members with
  | nil => rw [serversOf, List.flatMap_nil]
  | cons r rs ih => rw [serversOf, ih, List.flatMap_cons]

/-- An event passes through caches, boxes and shares as it is. -/
theorem notify_of_wraps {r q : Resolver} (h : r.Wraps q) (e : DialEvent) (time : Nat) :
    r.notify e time = q.notify e time := by
  rw [notify, notify, servers_of_wraps h]

/-- A chain tells each of its members. -/
theorem notify_chain (members : List Resolver) (e : DialEvent) (time : Nat) :
    (chain members).notify e time = members.flatMap fun r => r.notify e time := by
  rw [notify, servers, serversOf_eq, List.map_flatMap]
  rfl

/-- What the servers of a resolver hear when attempts are reported to it. -/
def hears (r : Resolver) (attempts : List Attempt) : List (Server × DialEvent) :=
  attempts.flatMap fun a => r.servers.map fun server => (server, a.event)

variable {r : Resolver} {as bs : List Attempt}

theorem hears_append (r : Resolver) (as bs : List Attempt) :
    r.hears (as ++ bs) = r.hears as ++ r.hears bs :=
  List.flatMap_append

theorem hears_cons (r : Resolver) (a : Attempt) (as : List Attempt) :
    r.hears (a :: as) = r.hears [a] ++ r.hears as :=
  hears_append r [a] as

/-- The order in which attempts are reported does not matter to who hears what. -/
theorem hears_perm (h : as.Perm bs) : (r.hears as).Perm (r.hears bs) :=
  h.flatMap_right _

end Resolver

/-! ## What is heard by an instant -/

/-- Who heard what. -/
def Report.heard (x : Report) : Server × DialEvent :=
  (x.server, x.event)

/-- What servers hear when the work is done. -/
def Work.tells : Work → List (Server × DialEvent)
  | .lookup _ _ => []
  | .attempt a r => r.hears [a]

/-- What servers hear from a task by an instant. -/
def Task.tellsBy (u : Nat) (k : Task) : List (Server × DialEvent) :=
  if k.due ≤ u then k.work.tells else []

namespace Session

/-- What servers have heard. -/
def heard (s : Session) : List (Server × DialEvent) :=
  s.record.reports.map Report.heard

/-- What servers hear by an instant if nothing is started any more. -/
def heardBy (s : Session) (u : Nat) : List (Server × DialEvent) :=
  s.heard ++ s.tasks.flatMap (Task.tellsBy u)

/-- What happened between the sessions adds these to what is heard by an
instant. -/
def Tells (u : Nat) (s t : Session) (news : List (Server × DialEvent)) : Prop :=
  (t.heardBy u).Perm (s.heardBy u ++ news)

variable {s t v : Session} {u n : Nat} {xs ys : List (Server × DialEvent)} {r : Resolver}

namespace Tells

/-- What leaves reports and tasks as they are adds nothing. -/
theorem of_same (hreports : t.record.reports = s.record.reports) (htasks : t.tasks = s.tasks) :
    Tells u s t [] := by
  unfold Tells heardBy heard
  rw [hreports, htasks, List.append_nil]

theorem refl (s : Session) : Tells u s s [] :=
  of_same rfl rfl

theorem trans (h : Tells u s t xs) (h' : Tells u t v ys) : Tells u s v (xs ++ ys) := by
  have hsum : (t.heardBy u ++ ys).Perm (s.heardBy u ++ xs ++ ys) := h.append_right ys
  unfold Tells
  rw [← List.append_assoc]
  exact List.Perm.trans h' hsum

/-- What adds nothing may come before. -/
theorem after (h : Tells u s t []) (h' : Tells u t v xs) : Tells u s v xs :=
  h.trans h'

/-- What adds nothing may come behind. -/
theorem before (h : Tells u s t xs) (h' : Tells u t v []) : Tells u s v xs := by
  have := h.trans h'
  rwa [List.append_nil] at this

theorem perm (h : Tells u s t xs) (hp : xs.Perm ys) : Tells u s t ys :=
  List.Perm.trans h (hp.append_left _)

end Tells

/-! ## Single operations -/

theorem map_heard_notify (r : Resolver) (a : Attempt) (time : Nat) :
    (r.notify a.event time).map Report.heard = r.hears [a] := by
  unfold Resolver.notify Resolver.hears
  rw [List.map_map, List.flatMap_singleton]
  rfl

theorem tells_notify (s : Session) (r : Resolver) (a : Attempt) :
    Tells u s (s.notify r a.event) (r.hears [a]) := by
  have hheard : (s.notify r a.event).heard = s.heard ++ r.hears [a] := by
    unfold heard
    rw [← map_heard_notify r a s.now, ← List.map_append]
    rfl
  show ((s.notify r a.event).heard ++ s.tasks.flatMap (Task.tellsBy u)).Perm _
  rw [hheard, heardBy, List.append_assoc, List.append_assoc]
  exact List.perm_append_comm.append_left s.heard

theorem tells_defer (s : Session) (due : Nat) (w : Work) :
    Tells u s (s.defer due w) (Task.tellsBy u ⟨due, w⟩) := by
  have htasks : (s.defer due w).tasks.flatMap (Task.tellsBy u) =
      s.tasks.flatMap (Task.tellsBy u) ++ Task.tellsBy u ⟨due, w⟩ := by
    unfold defer
    rw [List.flatMap_append, List.flatMap_singleton]
  unfold Tells
  rw [heardBy, htasks, heardBy, List.append_assoc]
  exact .refl _

/-- A lookup that goes on by itself tells nobody of attempts. -/
theorem tells_defer_lookup (s : Session) (due : Nat) (rest : Lookup) (ticket : Option Nat) :
    Tells u s (s.defer due (.lookup rest ticket)) [] := by
  have h := tells_defer (u := u) s due (.lookup rest ticket)
  unfold Task.tellsBy at h
  simpa [Work.tells] using h

theorem tells_collect (s : Session) (ticket : Option Nat) (a : Answer) :
    Tells u s (s.collect ticket a) [] := by
  cases ticket with
  | none => exact .refl s
  | some number => exact .of_same rfl rfl

theorem tells_ask (s : Session) (server : Server) (host : Domain) :
    Tells u s (s.ask server host) [] :=
  .of_same rfl rfl

theorem tells_store (s : Session) (number ttl : Nat) (host : Domain) (ips : List Ip) :
    Tells u s (s.store number ttl host ips) [] :=
  .of_same rfl rfl

/-! ## Time that passes -/

theorem tells_run (ticket : Option Nat) (l : Lookup) (s : Session) :
    Tells u s (run ticket l s) [] := by
  induction l generalizing s with
  | done a => exact tells_collect s ticket a
  | consult number host next ih => exact ih _ s
  | store number ttl host ips next ih => exact (tells_store s number ttl host ips).after (ih _)
  | ask server host next ih =>
    unfold run
    split
    · exact tells_ask s server host
    · exact (tells_ask s server host).after (ih _ _)
    · exact (tells_ask s server host).after (tells_defer_lookup _ _ _ _)

theorem tells_perform (s : Session) (w : Work) : Tells u s (s.perform w) w.tells := by
  cases w with
  | lookup rest ticket => exact tells_run ticket rest s
  | attempt a r =>
    show Tells u s (s.endLate a r) (r.hears [a])
    unfold endLate
    split
    · exact (tells_notify s r a).before (.of_same rfl rfl)
    · exact tells_notify s r a

/-- A task that is done tells what it had to tell. -/
theorem tells_doTask {k : Task} {others : List Task} (h : takeDue n s.tasks = some (k, others))
    (hn : n ≤ u) : Tells u s (s.doTask k others) [] := by
  obtain ⟨before, after, hks, rfl, -⟩ := takeDue_split h
  have hdue : k.due ≤ u := Nat.le_trans (takeDue_eq_some h).1 hn
  have hk : Task.tellsBy u k = k.work.tells := if_pos hdue
  have htaken : (s.heardBy u).Perm
      (heardBy { s with now := Nat.max s.now k.due, tasks := before ++ after } u ++
        k.work.tells) := by
    show (s.heardBy u).Perm (s.heard ++ (before ++ after).flatMap (Task.tellsBy u) ++ k.work.tells)
    rw [heardBy, hks, List.append_assoc, ← hk]
    refine List.Perm.append_left s.heard ?_
    rw [List.flatMap_append, List.flatMap_append, List.flatMap_cons, List.append_assoc]
    exact List.perm_append_comm.append_left _
  have hdone := tells_perform (u := u)
    { s with now := Nat.max s.now k.due, tasks := before ++ after } k.work
  unfold Tells
  rw [List.append_nil]
  exact List.Perm.trans hdone htaken.symm

/-- Time that passes up to an instant adds nothing to what is heard by then or
later. -/
theorem tells_runTo (s : Session) (hn : n ≤ u) : Tells u s (s.runTo n) [] := by
  fun_induction runTo s n with
  | case1 s h => exact .of_same rfl rfl
  | case2 s k others h ih => exact (tells_doTask h hn).after ih

theorem tells_runTo_of_now_le (h : (s.runTo n).now ≤ u) : Tells u s (s.runTo n) [] := by
  rw [runTo_now] at h
  exact tells_runTo s (Nat.max_le.1 h).2

/-- **Reports.** Once the time has passed, the servers have heard all that they
hear by the instant. -/
theorem heard_runTo (s : Session) (u : Nat) : ((s.runTo u).heard).Perm (s.heardBy u) := by
  have hleft : (s.runTo u).tasks.flatMap (Task.tellsBy u) = [] := by
    rw [List.flatMap_eq_nil_iff]
    exact fun k hk => if_neg (Nat.not_le_of_lt (lt_due_of_mem_runTo s u k hk))
  have h : Tells u s (s.runTo u) [] := tells_runTo s (Nat.le_refl u)
  unfold Tells at h
  rwa [heardBy, hleft, List.append_nil, List.append_nil] at h

/-! ## Waiting for a lookup -/

theorem tells_await (deadline : Option Nat) (l : Lookup) (s : Session)
    (h : (s.await deadline l).2.now ≤ u) : Tells u s (s.await deadline l).2 [] := by
  induction l generalizing s with
  | done a => exact .refl s
  | consult number host next ih => exact ih _ s h
  | store number ttl host ips next ih =>
    exact (tells_store s number ttl host ips).after (ih (s.store number ttl host ips) h)
  | ask server host next ih =>
    have hask := tells_ask (u := u) s server host
    cases hreply : s.reply server host with
    | mk delay a =>
      cases delay with
      | none =>
        cases deadline with
        | none =>
          rw [await_ask_forever next hreply]
          exact hask
        | some t =>
          rw [await_ask_silent next hreply] at h ⊢
          exact hask.after (tells_runTo_of_now_le h)
      | some d =>
        by_cases hd : ∀ t, deadline = some t → s.now + d < t
        · rw [await_ask_in_time hreply hd] at h ⊢
          have hwait : ((s.ask server host).runTo (s.now + d)).now ≤ u :=
            Nat.le_trans (await_idle deadline (next a) _).clock h
          exact hask.after ((tells_runTo_of_now_le hwait).after (ih a _ h))
        · obtain ⟨t, rfl, hle⟩ : ∃ t, deadline = some t ∧ t ≤ s.now + d := by
            simpa using hd
          rw [await_ask_late hreply hle] at h ⊢
          exact hask.after ((tells_defer_lookup _ _ _ _).after (tells_runTo_of_now_le h))

end Session
end NetDial
