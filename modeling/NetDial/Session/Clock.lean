import NetDial.Session.Basic

/-!
# The clock of a session

Time passes in a session by doing the work that is due, in the order in which it
is due and, at one instant, in the order in which it was deferred. A lookup goes
on until it has to wait for a server; then the rest of it is due when the server
replies, which is strictly later. So the work up to an instant comes to an end.

**Results.**
* `run_tasks`: running a lookup defers at most one task, due after now.
* `takeDue_eq_some`: what is taken was among the tasks, and due.
-/
namespace NetDial

namespace Session

/-- Runs a lookup until it is done or waits for a server. -/
def run (ticket : Option Nat) : Lookup → Session → Session
  | .done a, s => s.collect ticket a
  | .consult number host next, s => run ticket (next (s.fresh? number host)) s
  | .store number ttl host ips next, s => run ticket next (s.store number ttl host ips)
  | .ask server host next, s =>
    match s.reply server host with
    | ⟨none, _⟩ => s.ask server host
    | ⟨some 0, a⟩ => run ticket (next a) (s.ask server host)
    | ⟨some (d + 1), a⟩ => (s.ask server host).defer (s.now + (d + 1)) (.lookup (next a) ticket)

/-- Ends an attempt whose race is decided: it is reported, and its connection
is closed at once. -/
def endLate (s : Session) (a : Attempt) (r : Resolver) : Session :=
  if a.succeeds then (s.notify r a.event).recordClosing a.addr else s.notify r a.event

/-- Does work that is due. -/
def perform (s : Session) : Work → Session
  | .lookup rest ticket => s.run ticket rest
  | .attempt a r => s.endLate a r

/-- A task that is due first, if it is due at `t`, and the other tasks. -/
def takeDue (t : Nat) : List Task → Option (Task × List Task)
  | [] => none
  | k :: ks =>
    match takeDue t ks with
    | some (first, others) =>
      if k.due ≤ first.due then some (k, ks) else some (first, k :: others)
    | none => if k.due ≤ t then some (k, ks) else none

/-- How far the tasks are from being due after `t`. -/
def workLeft (t : Nat) : List Task → Nat
  | [] => 0
  | k :: ks => (t + 1 - k.due) + workLeft t ks

theorem workLeft_append (t : Nat) (ks ls : List Task) :
    workLeft t (ks ++ ls) = workLeft t ks + workLeft t ls := by
  induction ks with
  | nil => simp [workLeft]
  | cons k ks ih => simp only [List.cons_append, workLeft, ih]; omega

theorem takeDue_eq_some {t : Nat} {ks others : List Task} {k : Task}
    (h : takeDue t ks = some (k, others)) :
    k.due ≤ t ∧ workLeft t ks = (t + 1 - k.due) + workLeft t others := by
  induction ks generalizing k others with
  | nil => cases h
  | cons x xs ih =>
    unfold takeDue at h
    cases hx : takeDue t xs with
    | none =>
      rw [hx] at h
      simp only [Option.ite_none_right_eq_some, Option.some.injEq, Prod.mk.injEq] at h
      obtain ⟨hle, rfl, rfl⟩ := h
      exact ⟨hle, by simp [workLeft]⟩
    | some p =>
      obtain ⟨f, os⟩ := p
      obtain ⟨hf, hsum⟩ := ih hx
      rw [hx] at h
      simp only at h
      split at h
      · rename_i hle
        simp only [Option.some.injEq, Prod.mk.injEq] at h
        obtain ⟨rfl, rfl⟩ := h
        exact ⟨Nat.le_trans hle hf, by simp [workLeft]⟩
      · simp only [Option.some.injEq, Prod.mk.injEq] at h
        obtain ⟨rfl, rfl⟩ := h
        refine ⟨hf, ?_⟩
        simp only [workLeft] at hsum ⊢
        omega

theorem run_tasks (ticket : Option Nat) (l : Lookup) (s : Session) :
    (run ticket l s).tasks = s.tasks ∨
      ∃ k : Task, s.now < k.due ∧ (run ticket l s).tasks = s.tasks ++ [k] := by
  induction l generalizing s with
  | done a => cases ticket <;> exact .inl rfl
  | consult number host next ih => exact ih _ s
  | store number ttl host ips next ih => exact ih (s.store number ttl host ips)
  | ask server host next ih =>
    unfold run
    split
    · exact .inl rfl
    · exact ih _ (s.ask server host)
    · rename_i d a _
      exact .inr ⟨⟨s.now + (d + 1), .lookup (next a) ticket⟩, Nat.lt_add_of_pos_right (by omega), rfl⟩

theorem perform_tasks (s : Session) (w : Work) :
    (s.perform w).tasks = s.tasks ∨
      ∃ k : Task, s.now < k.due ∧ (s.perform w).tasks = s.tasks ++ [k] := by
  cases w with
  | lookup rest ticket => exact run_tasks ticket rest s
  | attempt a r =>
    refine .inl ?_
    change (s.endLate a r).tasks = s.tasks
    unfold endLate
    split <;> rfl

/-- Does a task that was taken from the others. -/
def doTask (s : Session) (k : Task) (others : List Task) : Session :=
  { s with now := Nat.max s.now k.due, tasks := others }.perform k.work

theorem workLeft_doTask {s : Session} {t : Nat} {k : Task} {others : List Task}
    (h : takeDue t s.tasks = some (k, others)) :
    workLeft t (s.doTask k others).tasks < workLeft t s.tasks := by
  obtain ⟨hle, hsum⟩ := takeDue_eq_some h
  rw [hsum]
  have hmax : k.due ≤ Nat.max s.now k.due := Nat.le_max_right s.now k.due
  rcases perform_tasks { s with now := Nat.max s.now k.due, tasks := others } k.work with
    hp | ⟨x, hx, hp⟩
  · unfold doTask
    rw [hp]
    simp only
    omega
  · unfold doTask
    rw [hp]
    simp only at hx
    simp only [workLeft_append, workLeft]
    omega

/-- Lets time pass up to `t`. -/
def runTo (s : Session) (t : Nat) : Session :=
  match _h : takeDue t s.tasks with
  | none => { s with now := Nat.max s.now t }
  | some (k, others) => (s.doTask k others).runTo t
termination_by workLeft t s.tasks
decreasing_by exact workLeft_doTask _h

/-- When the next task is due. -/
def nextDue? (s : Session) : Option Nat :=
  (s.tasks.map Task.due).min?

end Session
end NetDial
