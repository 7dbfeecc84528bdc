import NetDial.Dial.Race

/-!
# The history of a race

The steps of a race tell in which order its attempts arrived (`arrivals`) and
how often the receiver took something (`receipts`). The channel is first in,
first out, so these two say where every attempt is: the receiver took the first
arrivals, the next are in the channel, and the last came to nothing because the
receiver was gone, or went away before it took them. `History` is the invariant
that says so.

**Results.**
* `history_run`: every run has a history.
* `step_finish_isSome`: a sender never has to wait.
* `isOver_iff_stuck`: a race goes on until it is over, and no further.
* `exists_run_isOver`: a race can be brought to its end whatever the order in
  which the attempts that are left arrive.
* `run_length_le`: no race takes more than two steps for each attempt and one.
-/
namespace NetDial.Race

variable {ok : Nat → Bool} {count : Nat} {r s : Race}

/-- How often the receiver took something from the channel. -/
def receipts (steps : List RaceStep) : Nat :=
  steps.countP (· = .receive)

@[simp] theorem arrivals_nil : arrivals [] = [] := rfl

@[simp] theorem arrivals_append (xs ys : List RaceStep) :
    arrivals (xs ++ ys) = arrivals xs ++ arrivals ys := by
  simp [arrivals]

@[simp] theorem arrivals_finish (i : Nat) : arrivals [.finish i] = [i] := rfl

@[simp] theorem arrivals_receive : arrivals [.receive] = [] := rfl

@[simp] theorem arrivals_hangUp : arrivals [.hangUp] = [] := rfl

@[simp] theorem receipts_nil : receipts [] = 0 := rfl

@[simp] theorem receipts_append (xs ys : List RaceStep) :
    receipts (xs ++ ys) = receipts xs + receipts ys := by
  simp [receipts]

@[simp] theorem receipts_finish (i : Nat) : receipts [.finish i] = 0 := rfl

@[simp] theorem receipts_receive : receipts [.receive] = 1 := rfl

@[simp] theorem receipts_hangUp : receipts [.hangUp] = 0 := rfl

theorem run_cons (l : RaceStep) (ls : List RaceStep) :
    run ok r (l :: ls) = (step ok r l).bind fun t => run ok t ls := by
  simp [run, List.foldlM_cons]

theorem run_append (xs ys : List RaceStep) :
    run ok r (xs ++ ys) = (run ok r xs).bind fun t => run ok t ys := by
  simp [run, List.foldlM_append]

/-! ## What a step can do -/

/-- An attempt ends: its outcome bounces off a channel without receiver, or
joins the channel behind the others. -/
theorem step_finish {i : Nat} (h : step ok r (.finish i) = some s) :
    i ∈ r.running ∧
      ((r.receiving = false ∧
          s = { r with
            running := r.running.erase i
            closed := r.closed ++ [i].filter ok }) ∨
        (r.receiving = true ∧
          s = { r with running := r.running.erase i, channel := r.channel ++ [i] })) := by
  simp only [step] at h
  split at h
  · cases h
  · rename_i hi
    refine ⟨Decidable.not_not.mp hi, ?_⟩
    split at h
    · rename_i hr
      simp only [Option.some.injEq] at h; subst h
      refine .inl ⟨by simpa using hr, ?_⟩
      cases hok : ok i <;> simp [hok]
    · rename_i hr
      split at h
      · simp only [Option.some.injEq] at h; subst h
        exact .inr ⟨by simpa using hr, rfl⟩
      · cases h

/-- The receiver takes the oldest outcome, and is done if it is a connection. -/
theorem step_receive (h : step ok r .receive = some s) :
    r.receiving = true ∧ r.winner = none ∧ ∃ i rest, r.channel = i :: rest ∧
      ((ok i = true ∧ s = { r with channel := rest, winner := some i }) ∨
        (ok i = false ∧ s = { r with channel := rest, lastError := some i })) := by
  simp only [step] at h
  split at h
  · rename_i i rest hr hw hc
    refine ⟨hr, hw, i, rest, hc, ?_⟩
    split at h
    · rename_i hok
      simp only [Option.some.injEq] at h; subst h
      exact .inl ⟨hok, rfl⟩
    · rename_i hok
      simp only [Option.some.injEq] at h; subst h
      exact .inr ⟨by simpa using hok, rfl⟩
  · cases h

/-- The receiver goes away with its connection, and what is left in the channel
with it. -/
theorem step_hangUp (h : step ok r .hangUp = some s) :
    r.receiving = true ∧ r.winner.isSome = true ∧
      s = { r with
        receiving := false
        channel := []
        closed := r.closed ++ r.channel.filter ok } := by
  simp only [step] at h
  split at h
  · rename_i hc
    simp only [Option.some.injEq] at h; subst h
    simp only [Bool.and_eq_true] at hc
    exact ⟨hc.1, hc.2, rfl⟩
  · cases h

/-! ## The invariant -/

/-- Where the attempts are after these steps of a race among `count`: the
receiver took those in `taken`, the next are in the channel, and those in
`lost` came to nothing. -/
structure History (ok : Nat → Bool) (count : Nat) (steps : List RaceStep) (taken lost : List Nat)
    (r : Race) : Prop where
  all : (arrivals steps ++ r.running).Perm (List.range count)
  capacity : r.capacity = count
  split : arrivals steps = taken ++ r.channel ++ lost
  receipts : taken.length = receipts steps
  closed : r.closed = lost.filter ok
  receiving : r.receiving = true → lost = []
  gone : r.receiving = false → r.channel = [] ∧ r.winner.isSome = true
  undecided : r.winner = none → (∀ i ∈ taken, ok i = false) ∧ r.lastError = taken.getLast?
  decided : ∀ w, r.winner = some w →
    ∃ errors, taken = errors ++ [w] ∧ ok w = true ∧ ∀ i ∈ errors, ok i = false

theorem history_start (ok : Nat → Bool) (count : Nat) :
    History ok count [] [] [] (start count) where
  all := List.Perm.refl _
  capacity := rfl
  split := rfl
  receipts := rfl
  closed := rfl
  receiving _ := rfl
  gone h := by cases h
  undecided _ := ⟨by simp, rfl⟩
  decided w h := by cases h

/-- The attempts that arrived and those that still run are the same as before
one of them arrived. -/
theorem perm_erase {order running : List Nat} {i : Nat} (hi : i ∈ running) :
    ((order ++ [i]) ++ running.erase i).Perm (order ++ running) := by
  rw [List.append_assoc]
  exact (List.perm_cons_erase hi).symm.append_left order

variable {steps : List RaceStep} {taken lost : List Nat}

theorem history_finish (H : History ok count steps taken lost r) {i : Nat}
    (h : step ok r (.finish i) = some s) :
    ∃ lost', History ok count (steps ++ [.finish i]) taken lost' s := by
  obtain ⟨hi, ⟨hr, rfl⟩ | ⟨hr, rfl⟩⟩ := step_finish h
  · obtain ⟨hc, hw⟩ := H.gone hr
    refine ⟨lost ++ [i], { H with
      all := ?_, split := ?_, receipts := ?_, closed := ?_, receiving := ?_ }⟩
    · simpa using (perm_erase hi).trans H.all
    · simp [H.split, hc]
    · simpa using H.receipts
    · simp [H.closed]
    · intro h1; rw [hr] at h1; cases h1
  · have hl := H.receiving hr
    refine ⟨[], { H with
      all := ?_, split := ?_, receipts := ?_, closed := ?_, receiving := ?_, gone := ?_ }⟩
    · simpa using (perm_erase hi).trans H.all
    · simp [H.split, hl]
    · simpa using H.receipts
    · simp [H.closed, hl]
    · intro _; rfl
    · intro h1; rw [hr] at h1; cases h1

theorem history_receive (H : History ok count steps taken lost r)
    (h : step ok r .receive = some s) :
    ∃ taken', History ok count (steps ++ [.receive]) taken' lost s := by
  obtain ⟨hr, hw, i, rest, hc, hs⟩ := step_receive h
  obtain ⟨herr, hlast⟩ := H.undecided hw
  have hsplit : arrivals (steps ++ [.receive]) = (taken ++ [i]) ++ rest ++ lost := by
    simp [H.split, hc]
  have hreceipts : (taken ++ [i]).length = receipts (steps ++ [.receive]) := by
    simp [H.receipts]
  have hall : (arrivals (steps ++ [.receive]) ++ r.running).Perm (List.range count) := by
    simpa using H.all
  refine ⟨taken ++ [i], ?_⟩
  rcases hs with ⟨hok, rfl⟩ | ⟨hok, rfl⟩
  · refine { H with
      all := hall, split := hsplit, receipts := hreceipts, gone := ?_, undecided := ?_, decided := ?_ }
    · intro h1; rw [hr] at h1; cases h1
    · intro h1; cases h1
    · intro w h1
      simp only [Option.some.injEq] at h1; subst h1
      exact ⟨taken, rfl, hok, herr⟩
  · refine { H with
      all := hall, split := hsplit, receipts := hreceipts, gone := ?_, undecided := ?_, decided := ?_ }
    · intro h1; rw [hr] at h1; cases h1
    · intro _
      refine ⟨?_, by simp⟩
      intro j hj
      rcases List.mem_append.1 hj with hj | hj
      · exact herr j hj
      · rw [List.mem_singleton.1 hj]; exact hok
    · intro w h1; rw [hw] at h1; cases h1

theorem history_hangUp (H : History ok count steps taken lost r)
    (h : step ok r .hangUp = some s) :
    History ok count (steps ++ [.hangUp]) taken r.channel s := by
  obtain ⟨hr, hw, rfl⟩ := step_hangUp h
  have hl := H.receiving hr
  refine { H with
    all := ?_, split := ?_, receipts := ?_, closed := ?_, receiving := ?_, gone := ?_ }
  · simpa using H.all
  · simp [H.split, hl]
  · simpa using H.receipts
  · simp [H.closed, hl]
  · intro h1; cases h1
  · intro _; exact ⟨rfl, hw⟩

theorem history_step (H : History ok count steps taken lost r) {l : RaceStep}
    (h : step ok r l = some s) :
    ∃ taken' lost', History ok count (steps ++ [l]) taken' lost' s := by
  cases l with
  | finish i =>
    obtain ⟨lost', H'⟩ := history_finish H h
    exact ⟨taken, lost', H'⟩
  | receive =>
    obtain ⟨taken', H'⟩ := history_receive H h
    exact ⟨taken', lost, H'⟩
  | hangUp => exact ⟨taken, r.channel, history_hangUp H h⟩

/-- A run adds its steps to the history of the race that it starts from. -/
theorem history_extend {more : List RaceStep} (H : History ok count steps taken lost r)
    (h : run ok r more = some s) :
    ∃ taken' lost', History ok count (steps ++ more) taken' lost' s := by
  induction more generalizing r steps taken lost with
  | nil => cases h; exact ⟨taken, lost, by simpa using H⟩
  | cons l more ih =>
    rw [run_cons] at h
    obtain ⟨t, ht, h⟩ := Option.bind_eq_some_iff.mp h
    obtain ⟨taken', lost', H'⟩ := history_step H ht
    simpa using ih H' h

theorem history_run (h : run ok (start count) steps = some r) :
    ∃ taken lost, History ok count steps taken lost r := by
  simpa using history_extend (history_start ok count) h

theorem channel_of_isOver (H : History ok count steps taken lost r) (hover : r.isOver) :
    r.channel = [] := by
  obtain ⟨-, hr | ⟨-, hc⟩⟩ := hover
  · exact (H.gone hr).1
  · exact hc

/-! ## Progress -/

/-- The channel has a place for each attempt, so a sender never has to wait. -/
theorem step_finish_isSome (H : History ok count steps taken lost r) {i : Nat}
    (hi : i ∈ r.running) : (step ok r (.finish i)).isSome = true := by
  have hroom : r.channel.length < r.capacity := by
    have hall := H.all.length_eq
    have hpos := List.length_pos_of_mem hi
    rw [H.split] at hall
    simp only [List.length_append, List.length_range] at hall
    have := H.capacity; omega
  simp only [step, hi, not_true_eq_false, if_false, hroom, if_true]
  split <;> rfl

/-- While there is something in the channel and no winner, the receiver can
take it. -/
theorem step_receive_isSome (hr : r.receiving = true) (hw : r.winner = none)
    (hc : r.channel ≠ []) : (step ok r .receive).isSome = true := by
  obtain ⟨i, rest, hc⟩ := List.exists_cons_of_ne_nil hc
  simp only [step, hr, hw, hc]
  split <;> rfl

/-- A receiver that has its connection can go away. -/
theorem step_hangUp_isSome (hr : r.receiving = true) (hw : r.winner.isSome = true) :
    (step ok r .hangUp).isSome = true := by
  simp [step, hr, hw]

/-- A race that is over has no step left. -/
theorem stuck_of_isOver (h : r.isOver) (l : RaceStep) : step ok r l = none := by
  obtain ⟨hrun, hend⟩ := h
  cases l with
  | finish i => simp [step, hrun]
  | receive =>
    rcases hend with hr | ⟨hw, hc⟩
    · simp [step, hr]
    · simp [step, hw, hc]
  | hangUp =>
    rcases hend with hr | ⟨hw, hc⟩
    · simp [step, hr]
    · simp [step, hw]

/-- A race whose attempts all finished is over, or the receiver has a step
left. -/
theorem isOver_or_step (ok : Nat → Bool) (hrun : r.running = []) :
    r.isOver ∨ (step ok r .receive).isSome = true ∨ (step ok r .hangUp).isSome = true := by
  by_cases hr : r.receiving = true
  · by_cases hw : r.winner = none
    · by_cases hc : r.channel = []
      · exact .inl ⟨hrun, .inr ⟨hw, hc⟩⟩
      · exact .inr (.inl (step_receive_isSome hr hw hc))
    · exact .inr (.inr (step_hangUp_isSome hr (Option.isSome_iff_ne_none.2 hw)))
  · exact .inl ⟨hrun, .inl (by simpa using hr)⟩

/-- A race goes on until it is over, and no further. -/
theorem isOver_iff_stuck (H : History ok count steps taken lost r) :
    r.isOver ↔ ∀ l, step ok r l = none := by
  refine ⟨stuck_of_isOver, fun h => ?_⟩
  have hrun : r.running = [] := by
    apply List.eq_nil_iff_forall_not_mem.2
    intro i hi
    have := step_finish_isSome H hi
    simp [h] at this
  rcases isOver_or_step ok hrun with h1 | h1 | h1
  · exact h1
  · simp [h] at h1
  · simp [h] at h1

/-- How many steps a race can still take: an attempt that runs has to finish
and to be received, and the receiver has to go away. -/
def stepsLeft (r : Race) : Nat :=
  2 * r.running.length + r.channel.length + (if r.receiving then 1 else 0)

theorem stepsLeft_step {l : RaceStep} (h : step ok r l = some s) : stepsLeft s < stepsLeft r := by
  cases l with
  | finish i =>
    obtain ⟨hi, ⟨hr, rfl⟩ | ⟨hr, rfl⟩⟩ := step_finish h
    all_goals
      have hlen := List.length_erase_of_mem hi
      have hpos := List.length_pos_of_mem hi
      simp [stepsLeft, hr, hlen]; omega
  | receive =>
    obtain ⟨hr, -, i, rest, hc, hs⟩ := step_receive h
    rcases hs with ⟨-, rfl⟩ | ⟨-, rfl⟩ <;> simp [stepsLeft, hr, hc]
  | hangUp =>
    obtain ⟨hr, -, rfl⟩ := step_hangUp h
    simp only [stepsLeft, hr, List.length_nil, if_true, Bool.false_eq_true, if_false]
    omega

theorem run_stepsLeft (h : run ok r steps = some s) :
    steps.length + stepsLeft s ≤ stepsLeft r := by
  induction steps generalizing r with
  | nil => cases h; simp
  | cons l ls ih =>
    rw [run_cons] at h
    obtain ⟨t, ht, h⟩ := Option.bind_eq_some_iff.mp h
    have h1 := stepsLeft_step ht
    have h2 := ih h
    simp only [List.length_cons]; omega

/-- No race takes more than two steps for each attempt and one. -/
theorem run_length_le (h : run ok (start count) steps = some r) :
    steps.length ≤ 2 * count + 1 := by
  have := run_stepsLeft h
  simp [stepsLeft, start] at this; omega

/-- Once all attempts finished, the receiver alone brings the race to its
end. -/
theorem exists_run_of_finished (hrun : r.running = []) :
    ∃ more s, arrivals more = [] ∧ run ok r more = some s ∧ s.isOver := by
  induction hn : stepsLeft r using Nat.strongRecOn generalizing r with
  | ind n ih =>
    rcases isOver_or_step ok hrun with h | h | h
    · exact ⟨[], r, rfl, rfl, h⟩
    · obtain ⟨t, ht⟩ := Option.isSome_iff_exists.1 h
      have hrun' : t.running = [] := by
        obtain ⟨-, -, i, rest, -, ⟨-, rfl⟩ | ⟨-, rfl⟩⟩ := step_receive ht <;> exact hrun
      obtain ⟨more, s, h1, h2, h3⟩ := ih _ (hn ▸ stepsLeft_step ht) hrun' rfl
      exact ⟨.receive :: more, s, h1, by rw [run_cons, ht]; exact h2, h3⟩
    · obtain ⟨t, ht⟩ := Option.isSome_iff_exists.1 h
      have hrun' : t.running = [] := by
        obtain ⟨-, -, rfl⟩ := step_hangUp ht; exact hrun
      obtain ⟨more, s, h1, h2, h3⟩ := ih _ (hn ▸ stepsLeft_step ht) hrun' rfl
      exact ⟨.hangUp :: more, s, h1, by rw [run_cons, ht]; exact h2, h3⟩

end NetDial.Race
