import NetDial.Session.Lookup

/-!
# What waiting does and leaves alone

While a session waits, the work that goes on by itself is done and the clock
moves on. No attempt is started meanwhile, and no connection handed out
(`Idle`).

A deadline cuts a lookup off and changes nothing before that: as long as there
is time left, the lookup goes through the same states as one without deadline.
So what waiting up to a deadline comes to is said by when the lookup would end
if nobody cut it off (`lookupEnd?`).

**Results.**
* `runTo_now`: letting time pass up to an instant brings the clock there.
* `runTo_idle`, `await_idle`, `lookup_idle`: nothing is started by waiting.
* `takeDue_split`, `lt_due_of_mem_runTo`: which task is done next, and which tasks
  are left.
* `lookup_eq_cutOff`: a lookup is answered if it would end before the deadline,
  and late otherwise.
* `await_eq_of_awaitEnd?`: a deadline that is not reached makes no difference.
* `await_bounded`: waiting up to a deadline ends by it.
-/
namespace NetDial.Session

/-- What holds between two instants at which nothing was started and no
connection handed out. -/
structure Idle (s t : Session) : Prop where
  servers : t.servers = s.servers
  held : t.held = s.held
  openings : t.record.openings = s.record.openings
  clock : s.now ≤ t.now

namespace Idle

variable {s t u : Session}

theorem refl (s : Session) : Idle s s :=
  ⟨rfl, rfl, rfl, Nat.le_refl s.now⟩

theorem trans (h : Idle s t) (h' : Idle t u) : Idle s u where
  servers := h'.servers.trans h.servers
  held := h'.held.trans h.held
  openings := h'.openings.trans h.openings
  clock := Nat.le_trans h.clock h'.clock

end Idle

/-! ## Single operations -/

theorem ask_idle (s : Session) (server : Server) (host : Domain) : Idle s (s.ask server host) :=
  ⟨rfl, rfl, rfl, Nat.le_refl s.now⟩

theorem defer_idle (s : Session) (due : Nat) (work : Work) : Idle s (s.defer due work) :=
  ⟨rfl, rfl, rfl, Nat.le_refl s.now⟩

theorem store_idle (s : Session) (number ttl : Nat) (host : Domain) (ips : List Ip) :
    Idle s (s.store number ttl host ips) :=
  ⟨rfl, rfl, rfl, Nat.le_refl s.now⟩

theorem notify_idle (s : Session) (r : Resolver) (e : DialEvent) : Idle s (s.notify r e) :=
  ⟨rfl, rfl, rfl, Nat.le_refl s.now⟩

theorem recordClosing_idle (s : Session) (addr : NetAddr) : Idle s (s.recordClosing addr) :=
  ⟨rfl, rfl, rfl, Nat.le_refl s.now⟩

theorem collect_idle (s : Session) (ticket : Option Nat) (a : Answer) :
    Idle s (s.collect ticket a) := by
  cases ticket with
  | none => exact .refl s
  | some t => exact ⟨rfl, rfl, rfl, Nat.le_refl s.now⟩

/-! ## The work that goes on by itself -/

/-- What a lookup does until it waits takes no time. -/
theorem run_idle (ticket : Option Nat) (l : Lookup) (s : Session) :
    Idle s (run ticket l s) ∧ (run ticket l s).now = s.now := by
  induction l generalizing s with
  | done a =>
    refine ⟨collect_idle s ticket a, ?_⟩
    cases ticket <;> rfl
  | consult number host next ih => exact ih _ s
  | store number ttl host ips next ih =>
    obtain ⟨h, hnow⟩ := ih (s.store number ttl host ips)
    exact ⟨(store_idle s number ttl host ips).trans h, hnow⟩
  | ask server host next ih =>
    unfold run
    split
    · exact ⟨ask_idle s server host, rfl⟩
    · rename_i a _
      obtain ⟨h, hnow⟩ := ih a (s.ask server host)
      exact ⟨(ask_idle s server host).trans h, hnow⟩
    · exact ⟨(ask_idle s server host).trans (defer_idle _ _ _), rfl⟩

theorem perform_idle (s : Session) (w : Work) :
    Idle s (s.perform w) ∧ (s.perform w).now = s.now := by
  cases w with
  | lookup rest ticket => exact run_idle ticket rest s
  | attempt a r =>
    show Idle s (s.endLate a r) ∧ (s.endLate a r).now = s.now
    unfold endLate
    split
    · exact ⟨(notify_idle s r a.event).trans (recordClosing_idle _ a.addr), rfl⟩
    · exact ⟨notify_idle s r a.event, rfl⟩

theorem doTask_idle (s : Session) (k : Task) (others : List Task) :
    Idle s (s.doTask k others) ∧ (s.doTask k others).now = Nat.max s.now k.due := by
  obtain ⟨h, hnow⟩ :=
    perform_idle { s with now := Nat.max s.now k.due, tasks := others } k.work
  have hclock : Idle s { s with now := Nat.max s.now k.due, tasks := others } :=
    ⟨rfl, rfl, rfl, Nat.le_max_left s.now k.due⟩
  exact ⟨hclock.trans h, hnow⟩

theorem runTo_idle (s : Session) (t : Nat) : Idle s (s.runTo t) := by
  fun_induction runTo s t with
  | case1 s h => exact ⟨rfl, rfl, rfl, Nat.le_max_left s.now t⟩
  | case2 s k others h ih => exact (doTask_idle s k others).1.trans ih

/-- **Clock.** Letting time pass brings the clock to the instant that is waited
for, and never turns it back. -/
theorem runTo_now (s : Session) (t : Nat) : (s.runTo t).now = Nat.max s.now t := by
  fun_induction runTo s t with
  | case1 s h => rfl
  | case2 s k others h ih =>
    have hdue : k.due ≤ t := (takeDue_eq_some h).1
    have hmax : k.due ≤ Nat.max s.now t := Nat.le_trans hdue (Nat.le_max_right s.now t)
    rw [ih, (doTask_idle s k others).2]
    show max (max s.now k.due) t = max s.now t
    omega

/-! ## The tasks that are left -/

/-- Nothing is taken exactly if nothing is due. -/
theorem takeDue_eq_none_iff {n : Nat} {ks : List Task} :
    takeDue n ks = none ↔ ∀ k ∈ ks, n < k.due := by
  induction ks with
  | nil => simp [takeDue]
  | cons x xs ih =>
    unfold takeDue
    rw [List.forall_mem_cons, ← ih]
    cases takeDue n xs with
    | none => simp
    | some p =>
      simp only [reduceCtorEq, and_false, iff_false]
      split <;> simp

/-- A task that is taken is the first of those that are due first, and leaves the
others in their order. -/
theorem takeDue_split {n : Nat} {ks others : List Task} {k : Task}
    (h : takeDue n ks = some (k, others)) : ∃ before after,
      ks = before ++ k :: after ∧ others = before ++ after ∧
        (∀ x ∈ before, k.due < x.due) ∧ ∀ x ∈ after, k.due ≤ x.due := by
  induction ks generalizing k others with
  | nil => cases h
  | cons x xs ih =>
    unfold takeDue at h
    cases hx : takeDue n xs with
    | none =>
      rw [hx] at h
      simp only [Option.ite_none_right_eq_some, Option.some.injEq, Prod.mk.injEq] at h
      obtain ⟨hle, rfl, rfl⟩ := h
      have hlater : ∀ y ∈ xs, x.due ≤ y.due := fun y hy =>
        Nat.le_of_lt (Nat.lt_of_le_of_lt hle (takeDue_eq_none_iff.1 hx y hy))
      exact ⟨[], xs, rfl, rfl, by simp, hlater⟩
    | some p =>
      obtain ⟨first, rest⟩ := p
      obtain ⟨before, after, rfl, rfl, hbefore, hafter⟩ := ih hx
      rw [hx] at h
      simp only at h
      split at h
      · rename_i hle
        cases h
        refine ⟨[], _, rfl, rfl, by simp, ?_⟩
        rw [List.forall_mem_append, List.forall_mem_cons]
        exact ⟨fun y hy => Nat.le_of_lt (Nat.lt_of_le_of_lt hle (hbefore y hy)), hle,
          fun y hy => Nat.le_trans hle (hafter y hy)⟩
      · rename_i hlt
        cases h
        exact ⟨x :: before, after, rfl, rfl,
          List.forall_mem_cons.2 ⟨Nat.lt_of_not_le hlt, hbefore⟩, hafter⟩

/-- After time passed up to an instant, nothing is due by then. -/
theorem lt_due_of_mem_runTo (s : Session) (t : Nat) : ∀ k ∈ (s.runTo t).tasks, t < k.due := by
  fun_induction runTo s t with
  | case1 s h => exact takeDue_eq_none_iff.1 h
  | case2 s k others h ih => exact ih

/-! ## Waiting for a lookup -/

theorem await_idle (deadline : Option Nat) (l : Lookup) (s : Session) :
    Idle s (s.await deadline l).2 := by
  induction l generalizing s with
  | done a => exact .refl s
  | consult number host next ih => exact ih _ s
  | store number ttl host ips next ih =>
    exact (store_idle s number ttl host ips).trans (ih _)
  | ask server host next ih =>
    have hask := ask_idle s server host
    unfold await
    split
    · exact hask
    · exact hask.trans (runTo_idle _ _)
    · exact hask.trans ((runTo_idle _ _).trans (ih _ _))
    · split
      · exact hask.trans ((runTo_idle _ _).trans (ih _ _))
      · exact hask.trans ((defer_idle _ _ _).trans (runTo_idle _ _))

theorem lookup_idle (s : Session) (r : Resolver) (deadline : Option Nat) (host : Domain) :
    Idle s (s.lookup r deadline host).2 :=
  await_idle deadline (r.lookup host) s

/-- When a lookup ends that nobody cuts off, and with which answer. -/
def awaitEnd? (s : Session) (l : Lookup) : Option (Nat × Answer) :=
  match s.await none l with
  | (.answered a, t) => some (t.now, a)
  | _ => none

/-- When the lookup of a host ends that nobody cuts off, and with which
answer. -/
def lookupEnd? (s : Session) (r : Resolver) (host : Domain) : Option (Nat × Answer) :=
  s.awaitEnd? (r.lookup host)

theorem le_of_awaitEnd? {s : Session} {l : Lookup} {t : Nat} {a : Answer}
    (h : s.awaitEnd? l = some (t, a)) : s.now ≤ t := by
  unfold awaitEnd? at h
  split at h
  · rename_i u hu
    simp only [Option.some.injEq, Prod.mk.injEq] at h
    have := (await_idle none l s).clock
    rw [hu] at this
    rw [← h.1]; exact this
  · cases h

/-- What waiting up to a deadline comes to, by the end of the lookup if nobody
cut it off. -/
def cutOff : Option Nat → Option (Nat × Answer) → Awaited
  | none, some (_, a) => .answered a
  | none, none => .forever
  | some t, some (u, a) => if u < t then .answered a else .late
  | some _, none => .late

theorem cutOff_eq_answered_iff {deadline : Option Nat} {e : Option (Nat × Answer)} {a : Answer} :
    cutOff deadline e = .answered a ↔
      ∃ u, e = some (u, a) ∧ ∀ t, deadline = some t → u < t := by
  cases deadline with
  | none => rcases e with _ | ⟨u, b⟩ <;> simp [cutOff]
  | some t =>
    rcases e with _ | ⟨u, b⟩
    · simp [cutOff]
    · simp only [cutOff, Option.some.injEq, Prod.mk.injEq, forall_eq']
      constructor
      · intro h
        split at h
        · rename_i hu
          cases h
          exact ⟨u, ⟨rfl, rfl⟩, hu⟩
        · cases h
      · intro h
        obtain ⟨_, ⟨rfl, rfl⟩, hu⟩ := h
        exact if_pos hu

theorem cutOff_eq_late_iff {deadline : Option Nat} {e : Option (Nat × Answer)} :
    cutOff deadline e = .late ↔
      ∃ t, deadline = some t ∧ ∀ u a, e = some (u, a) → t ≤ u := by
  cases deadline with
  | none => rcases e with _ | ⟨u, b⟩ <;> simp [cutOff]
  | some t =>
    rcases e with _ | ⟨u, b⟩
    · simp [cutOff]
    · by_cases h : u < t
      · simp [cutOff, h]
      · simp [cutOff, h, Nat.le_of_not_lt h]

section

variable {s : Session} {server : Server} {host : Domain} {next : Answer → Lookup} {d : Nat}
  {a : Answer}

theorem await_ask_forever (next : Answer → Lookup) (h : s.reply server host = ⟨none, a⟩) :
    s.await none (.ask server host next) = (.forever, s.ask server host) := by
  show await none (.ask server host next) s = _
  conv => lhs; unfold await
  rw [h]

theorem await_ask_silent (next : Answer → Lookup) (h : s.reply server host = ⟨none, a⟩)
    (t : Nat) :
    s.await (some t) (.ask server host next) = (.late, (s.ask server host).runTo t) := by
  show await (some t) (.ask server host next) s = _
  conv => lhs; unfold await
  rw [h]

theorem await_ask_never (next : Answer → Lookup) (h : s.reply server host = ⟨none, a⟩)
    (deadline : Option Nat) :
    (s.await deadline (.ask server host next)).1 = cutOff deadline none := by
  cases deadline with
  | none => rw [await_ask_forever next h]; rfl
  | some t => rw [await_ask_silent next h]; rfl

theorem awaitEnd?_ask_never (next : Answer → Lookup) (h : s.reply server host = ⟨none, a⟩) :
    s.awaitEnd? (.ask server host next) = none := by
  unfold awaitEnd?
  rw [await_ask_forever next h]

theorem await_ask_in_time {deadline : Option Nat} (h : s.reply server host = ⟨some d, a⟩)
    (ht : ∀ t, deadline = some t → s.now + d < t) :
    s.await deadline (.ask server host next) =
      ((s.ask server host).runTo (s.now + d)).await deadline (next a) := by
  show await deadline (.ask server host next) s = _
  conv => lhs; unfold await
  rw [h]
  cases deadline with
  | none => rfl
  | some t => exact if_pos (ht t rfl)

theorem await_ask_answered (next : Answer → Lookup) (h : s.reply server host = ⟨some d, a⟩) :
    s.await none (.ask server host next) =
      ((s.ask server host).runTo (s.now + d)).await none (next a) :=
  await_ask_in_time h (by simp)

/-- A lookup whose server replies too late goes on by itself. -/
theorem await_ask_late {t : Nat} (h : s.reply server host = ⟨some d, a⟩) (ht : t ≤ s.now + d) :
    s.await (some t) (.ask server host next) =
      (.late, ((s.ask server host).defer (s.now + d) (.lookup (next a) none)).runTo t) := by
  show await (some t) (.ask server host next) s = _
  conv => lhs; unfold await
  rw [h]
  exact if_neg (by omega)

theorem ask_runTo_now : ((s.ask server host).runTo (s.now + d)).now = s.now + d := by
  rw [runTo_now]
  exact Nat.max_eq_right (Nat.le_add_right s.now d)

theorem awaitEnd?_ask (h : s.reply server host = ⟨some d, a⟩) :
    s.awaitEnd? (.ask server host next) =
      ((s.ask server host).runTo (s.now + d)).awaitEnd? (next a) := by
  unfold awaitEnd?
  rw [await_ask_answered next h]

end

/-- A lookup goes through the same states with a deadline and without, as long
as there is time left. -/
theorem await_eq_cutOff {s : Session} {deadline : Option Nat} (l : Lookup)
    (ht : ∀ t, deadline = some t → s.now < t) :
    (s.await deadline l).1 = cutOff deadline (s.awaitEnd? l) := by
  induction l generalizing s with
  | done a =>
    cases deadline with
    | none => rfl
    | some t => exact (if_pos (ht t rfl)).symm
  | consult number host next ih => exact ih _ ht
  | store number ttl host ips next ih => exact ih ht
  | ask server host next ih =>
    cases hreply : s.reply server host with
    | mk delay a =>
      cases delay with
      | none =>
        rw [await_ask_never next hreply, awaitEnd?_ask_never next hreply]
      | some d =>
        rw [awaitEnd?_ask hreply]
        by_cases hd : ∀ t, deadline = some t → s.now + d < t
        · rw [await_ask_in_time hreply hd]
          exact ih a (by rwa [ask_runTo_now])
        · -- The server replies too late, and the lookup ends no earlier.
          obtain ⟨t, rfl, hle⟩ : ∃ t, deadline = some t ∧ t ≤ s.now + d := by
            simpa using hd
          rw [await_ask_late hreply hle]
          cases hu : ((s.ask server host).runTo (s.now + d)).awaitEnd? (next a) with
          | none => rfl
          | some e =>
            have hend := le_of_awaitEnd? hu
            rw [ask_runTo_now] at hend
            exact (if_neg (by omega)).symm

/-- **Deadline.** A lookup that starts in time is answered if it would end
before the deadline, and is late otherwise; without a deadline it is answered if
it ever ends. -/
theorem lookup_eq_cutOff {s : Session} {deadline : Option Nat} (r : Resolver) (host : Domain)
    (ht : ∀ t, deadline = some t → s.now < t) :
    (s.lookup r deadline host).1 = cutOff deadline (s.lookupEnd? r host) :=
  await_eq_cutOff (r.lookup host) ht

/-- A lookup that would end before the deadline is the same as one without
deadline, in all that it does. -/
theorem await_eq_of_awaitEnd? {s : Session} {t u : Nat} {a : Answer} (l : Lookup)
    (hend : s.awaitEnd? l = some (u, a)) (hu : u < t) :
    s.await (some t) l = s.await none l := by
  induction l generalizing s with
  | done b => rfl
  | consult number host next ih => exact ih _ hend
  | store number ttl host ips next ih => exact ih hend
  | ask server host next ih =>
    cases hreply : s.reply server host with
    | mk delay b =>
      cases delay with
      | none =>
        rw [awaitEnd?_ask_never next hreply] at hend
        cases hend
      | some d =>
        rw [awaitEnd?_ask hreply] at hend
        have hle := le_of_awaitEnd? hend
        rw [ask_runTo_now] at hle
        have hin : ∀ t', some t = some t' → s.now + d < t' := by
          intro t' ht'
          rw [← Option.some.inj ht']
          exact Nat.lt_of_le_of_lt hle hu
        rw [await_ask_in_time hreply hin, await_ask_answered next hreply]
        exact ih b hend

/-- Waiting up to a deadline comes to an end, and no later than that. -/
theorem await_bounded {s : Session} {t : Nat} (l : Lookup) (hs : s.now ≤ t) :
    (s.await (some t) l).1 ≠ .forever ∧ (s.await (some t) l).2.now ≤ t := by
  induction l generalizing s with
  | done a => exact ⟨by simp [await], hs⟩
  | consult number host next ih => exact ih _ hs
  | store number ttl host ips next ih => exact ih hs
  | ask server host next ih =>
    cases hreply : s.reply server host with
    | mk delay a =>
      cases delay with
      | none =>
        rw [await_ask_silent next hreply]
        exact ⟨by simp, by rw [runTo_now]; exact Nat.max_le.2 ⟨hs, Nat.le_refl t⟩⟩
      | some d =>
        by_cases hd : s.now + d < t
        · rw [await_ask_in_time hreply fun u hu => Option.some.inj hu ▸ hd]
          exact ih a (by rw [ask_runTo_now]; exact Nat.le_of_lt hd)
        · rw [await_ask_late hreply (Nat.le_of_not_lt hd)]
          exact ⟨by simp, by rw [runTo_now]; exact Nat.max_le.2 ⟨hs, Nat.le_refl t⟩⟩

end NetDial.Session
