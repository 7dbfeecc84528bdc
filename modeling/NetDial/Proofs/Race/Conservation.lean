import NetDial.Proofs.Race.History

/-!
# No connection of a race is lost

Every attempt of a race may get a connection, and only one of them is handed to
the caller. The others are closed, in one of two places: a connection that was
in the channel when the receiver went away is dropped with it, and one that is
sent later comes back to its sender.

**Results.**
* `winner_run`: a connection that was handed over is never replaced.
* `accounts_balance`: at every moment the connections that arrived are, in this
  order, the one that was handed over, those in the channel and the closed ones.
* `connections_conserved`: hence, when a race is over, every connection is
  either the caller's or closed, once, and none is left in the channel.
-/
namespace NetDial.Race

variable {ok : Nat → Bool} {count : Nat} {steps : List RaceStep} {taken lost : List Nat}
  {r s : Race}

/-! ## At most one connection is handed over -/

theorem winner_step {l : RaceStep} {w : Nat} (h : step ok r l = some s)
    (hw : r.winner = some w) : s.winner = some w := by
  cases l with
  | finish i =>
    obtain ⟨-, ⟨-, rfl⟩ | ⟨-, rfl⟩⟩ := step_finish h <;> exact hw
  | receive =>
    obtain ⟨-, hnone, -⟩ := step_receive h
    rw [hnone] at hw; cases hw
  | hangUp => obtain ⟨-, -, rfl⟩ := step_hangUp h; exact hw

/-- A connection that was handed over is never replaced by another. -/
theorem winner_run {w : Nat} (h : run ok r steps = some s) (hw : r.winner = some w) :
    s.winner = some w := by
  induction steps generalizing r with
  | nil => cases h; exact hw
  | cons l ls ih =>
    rw [run_cons] at h
    obtain ⟨t, ht, h⟩ := Option.bind_eq_some_iff.mp h
    exact ih h (winner_step ht hw)

/-! ## Where the connections are -/

/-- What the receiver took holds one connection, the winner, or none. -/
theorem taken_filter (H : History ok count steps taken lost r) :
    taken.filter ok = r.winner.toList := by
  cases hw : r.winner with
  | none =>
    obtain ⟨herr, -⟩ := H.undecided hw
    simpa using herr
  | some w =>
    obtain ⟨errors, rfl, hok, herr⟩ := H.decided w hw
    have : errors.filter ok = [] := by simpa using herr
    simp [this, hok]

/-- The connections that arrived are the winner, those in the channel and the
closed ones, in the order of their arrival. -/
theorem accounts_balance (H : History ok count steps taken lost r) :
    r.winner.toList ++ r.channel.filter ok ++ r.closed = (arrivals steps).filter ok := by
  rw [H.split, List.filter_append, List.filter_append, taken_filter H, H.closed]

/-- Every attempt that ran arrived once. -/
theorem arrivals_of_finished (H : History ok count steps taken lost r) (hrun : r.running = []) :
    (arrivals steps).Perm (List.range count) := by
  simpa [hrun] using H.all

/-- **Conservation.** However the steps of a race interleave: a connection that
was handed to the caller at some moment is the only one ever; the connections
that arrived are the caller's, those in the channel and the closed ones; once
all attempts finished, the receiver alone brings the race to its end; and then
the channel is empty and every connection that any attempt got is either the
caller's or closed, never both and closed at most once. -/
theorem connections_conserved (h : run ok (start count) steps = some r) :
    (∀ before after s w, steps = before ++ after → run ok (start count) before = some s →
        s.winner = some w → r.winner = some w) ∧
      r.winner.toList ++ r.channel.filter ok ++ r.closed = (arrivals steps).filter ok ∧
      (r.running = [] → ∃ more s, arrivals more = [] ∧ run ok r more = some s ∧ s.isOver) ∧
      (r.isOver → r.channel = [] ∧ r.closed.Nodup ∧
        ∀ i, (r.winner = some i ∨ i ∈ r.closed ↔ i < count ∧ ok i = true) ∧
          ¬(r.winner = some i ∧ i ∈ r.closed)) := by
  obtain ⟨taken, lost, H⟩ := history_run h
  refine ⟨?_, accounts_balance H, exists_run_of_finished, ?_⟩
  · intro before after s w hsteps hs hw
    rw [hsteps, run_append, hs] at h
    exact winner_run h hw
  · intro hover
    have hc := channel_of_isOver H hover
    have hall := arrivals_of_finished H hover.1
    have hbalance : r.winner.toList ++ r.closed = (arrivals steps).filter ok := by
      simpa [hc] using accounts_balance H
    have hnodup : (r.winner.toList ++ r.closed).Nodup := by
      rw [hbalance]
      exact (hall.nodup_iff.2 List.nodup_range).filter _
    obtain ⟨-, hclosed, hdisjoint⟩ := List.nodup_append.1 hnodup
    refine ⟨hc, hclosed, fun i => ⟨?_, ?_⟩⟩
    · have hmem : i ∈ r.winner.toList ++ r.closed ↔ i < count ∧ ok i = true := by
        rw [hbalance, List.mem_filter, hall.mem_iff, List.mem_range]
      simpa using hmem
    · intro hboth
      obtain ⟨hw, hi⟩ := hboth
      exact hdisjoint i (by simp [hw]) i hi rfl

/-- Three attempts get a connection each: the second wins, the first is in the
channel when the receiver goes away, and the third is late. -/
theorem connections_conserved_three :
    run (fun _ => true) (start 3) [.finish 1, .finish 0, .receive, .hangUp, .finish 2] =
        some { running := [], capacity := 3, receiving := false, winner := some 1, closed := [0, 2] } ∧
      ∀ i, (some 1 = some i ∨ i ∈ [0, 2] ↔ i < 3 ∧ true = true) ∧ ¬(some 1 = some i ∧ i ∈ [0, 2]) := by
  have h : run (fun _ => true) (start 3) [.finish 1, .finish 0, .receive, .hangUp, .finish 2] =
      some { running := [], capacity := 3, receiving := false, winner := some 1, closed := [0, 2] } := by
    decide
  exact ⟨h, ((connections_conserved h).2.2.2 ⟨rfl, .inl rfl⟩).2.2⟩

end NetDial.Race
