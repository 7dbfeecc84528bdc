import NetDial.Proofs.Session.Waiting

/-!
# Work in the background

A lookup that is cut off goes on by itself, as a task among others. Here: it does
then what it would have done if somebody had waited for it, at the same instants,
so that in the end the session is the same.

For that a task may be taken out of the list and done by hand when its time has
come (`runTo_of_more`). It has to be the only one that is due at its instant: of
two tasks of one instant the one deferred first is done first, and a lookup that
is waited for is deferred at no time. `Undisturbed` says this of all instants at
which a lookup hears from a server; where there are no other tasks it always
holds.

**Results.**
* `runTo_runTo`: time may pass in parts.
* `runTo_of_more`: a task with an instant of its own is done at it.
* `runTo_run`, `runTo_await`: a lookup that goes on by itself, and one that is cut
  off, leave what a lookup leaves that is waited for to its end.
* `questions_runTo`, `questions_lookup_server_of_quiet`: which questions are on
  record.
-/
namespace NetDial.Session

variable {s s' : Session} {t u v : Nat} {k : Task} {ks others : List Task} {l : Lookup}

/-! ## Time in parts -/

theorem takeDue_of_first {before after : List Task} (hdue : k.due ≤ t)
    (hbefore : ∀ x ∈ before, k.due < x.due) (hafter : ∀ x ∈ after, k.due ≤ x.due) :
    takeDue t (before ++ k :: after) = some (k, before ++ after) := by
  induction before with
  | nil =>
    show takeDue t (k :: after) = some (k, after)
    unfold takeDue
    split
    · rename_i first rest hfirst
      obtain ⟨_, _, rfl, -⟩ := takeDue_split hfirst
      exact if_pos (hafter first (by simp))
    · exact if_pos hdue
  | cons x before ih =>
    rw [List.forall_mem_cons] at hbefore
    show takeDue t (x :: (before ++ k :: after)) = _
    unfold takeDue
    rw [ih hbefore.2]
    exact if_neg (Nat.not_le_of_lt hbefore.1)

/-- Which task is done next does not depend on how far the time goes. -/
theorem takeDue_of_due_le (h : takeDue t ks = some (k, others)) (hv : k.due ≤ v) :
    takeDue v ks = some (k, others) := by
  obtain ⟨before, after, rfl, rfl, hbefore, hafter⟩ := takeDue_split h
  exact takeDue_of_first hv hbefore hafter

theorem runTo_of_none (h : takeDue t s.tasks = none) :
    s.runTo t = { s with now := Nat.max s.now t } := by
  rw [runTo]
  split
  · rfl
  · rename_i hsome
    rw [h] at hsome
    cases hsome

theorem runTo_of_some (h : takeDue t s.tasks = some (k, others)) :
    s.runTo t = (s.doTask k others).runTo t := by
  rw [runTo]
  split
  · rename_i hnone
    rw [h] at hnone
    cases hnone
  · rename_i hsome
    rw [h] at hsome
    cases hsome
    rfl

/-- While nothing is due the clock may be moved on. -/
theorem runTo_tick (h : takeDue t s.tasks = none) (hv : t ≤ v) :
    runTo { s with now := Nat.max s.now t } v = s.runTo v := by
  cases hnext : takeDue v s.tasks with
  | none =>
    have hmax : Nat.max (Nat.max s.now t) v = Nat.max s.now v := by
      show max (max s.now t) v = max s.now v
      omega
    rw [runTo_of_none hnext, runTo_of_none (s := { s with now := Nat.max s.now t }) hnext]
    simp only [hmax]
  | some p =>
    obtain ⟨k, others⟩ := p
    obtain ⟨before, after, hks, -⟩ := takeDue_split hnext
    have hlater : t < k.due := takeDue_eq_none_iff.1 h k (by simp [hks])
    have hmax : Nat.max (Nat.max s.now t) k.due = Nat.max s.now k.due := by
      show max (max s.now t) k.due = max s.now k.due
      omega
    rw [runTo_of_some hnext, runTo_of_some (s := { s with now := Nat.max s.now t }) hnext]
    simp only [doTask, hmax]

theorem runTo_runTo (s : Session) (hv : t ≤ v) : (s.runTo t).runTo v = s.runTo v := by
  fun_induction runTo s t with
  | case1 s h => exact runTo_tick h hv
  | case2 s k others h ih =>
    have hdue : k.due ≤ v := Nat.le_trans (takeDue_eq_some h).1 hv
    rw [ih, runTo_of_some (takeDue_of_due_le h hdue)]

/-- No task of the session is due yet. -/
def Settled (s : Session) : Prop :=
  ∀ k ∈ s.tasks, s.now < k.due

theorem settled_runTo (h : s.now ≤ t) : Settled (s.runTo t) := by
  intro k hk
  have hnow : (s.runTo t).now = t := (runTo_now s t).trans (Nat.max_eq_right h)
  rw [hnow]
  exact lt_due_of_mem_runTo s t k hk

/-- No time passes up to now. -/
theorem runTo_self (h : Settled s) : s.runTo s.now = s := by
  have hmax : Nat.max s.now s.now = s.now := Nat.max_self s.now
  rw [runTo_of_none (takeDue_eq_none_iff.2 h), hmax]

/-! ## One more task -/

/-- The session with these tasks. -/
def withTasks (s : Session) (ks : List Task) : Session :=
  { s with tasks := ks }

/-- What a lookup does until it waits does not depend on the tasks there are; a
task of its own comes behind them. -/
theorem run_withTasks (ticket : Option Nat) (l : Lookup) (s : Session) (ks : List Task) :
    run ticket l (s.withTasks ks) =
      (run ticket l (s.withTasks [])).withTasks (ks ++ (run ticket l (s.withTasks [])).tasks) := by
  induction l generalizing s with
  | done a => cases ticket <;> simp [run, collect, withTasks]
  | consult number host next ih => exact ih _ s
  | store number ttl host ips next ih => exact ih (s.store number ttl host ips)
  | ask server host next ih =>
    have hreply : ∀ ks, (s.withTasks ks).reply server host = s.reply server host := fun _ => rfl
    unfold run
    rw [hreply, hreply]
    cases s.reply server host with
    | mk delay a =>
      match delay with
      | none => simp [ask, withTasks]
      | some 0 => exact ih a (s.ask server host)
      | some (d + 1) => simp [ask, defer, withTasks]

theorem perform_withTasks (w : Work) (s : Session) (ks : List Task) :
    (s.withTasks ks).perform w =
      ((s.withTasks []).perform w).withTasks (ks ++ ((s.withTasks []).perform w).tasks) := by
  cases w with
  | lookup rest ticket => exact run_withTasks ticket rest s ks
  | attempt a r =>
    show (s.withTasks ks).endLate a r =
      ((s.withTasks []).endLate a r).withTasks (ks ++ ((s.withTasks []).endLate a r).tasks)
    unfold endLate
    split <;> simp [notify, recordClosing, withTasks]

/-- `s'` is `s` with one more task. -/
def More (k : Task) (s s' : Session) : Prop :=
  ∃ before after, s.tasks = before ++ after ∧ s' = s.withTasks (before ++ k :: after)

theorem more_defer (s : Session) (due : Nat) (w : Work) : More ⟨due, w⟩ s (s.defer due w) :=
  ⟨s.tasks, [], (List.append_nil s.tasks).symm, rfl⟩

theorem More.perform (h : More k s s') (w : Work) : More k (s.perform w) (s'.perform w) := by
  obtain ⟨before, after, hks, rfl⟩ := h
  have hs : s = s.withTasks (before ++ after) := by rw [← hks]; rfl
  have hdone := perform_withTasks w s (before ++ after)
  rw [← hs] at hdone
  refine ⟨before, after ++ ((s.withTasks []).perform w).tasks, ?_, ?_⟩
  · rw [hdone]
    exact List.append_assoc ..
  · rw [perform_withTasks, hdone]
    simp [withTasks]

/-- A task that is due before the additional one is done before it. -/
theorem More.doTask {x : Task} (h : More k s s') (hx : takeDue t s.tasks = some (x, others))
    (hlt : x.due < k.due) :
    ∃ others', takeDue t s'.tasks = some (x, others') ∧
      More k (s.doTask x others) (s'.doTask x others') := by
  obtain ⟨before, after, hks, rfl⟩ := h
  obtain ⟨left, right, hsplit, rfl, hleft, hright⟩ := takeDue_split hx
  have hdue := (takeDue_eq_some hx).1
  -- The additional task stands in front of `x`, or behind it.
  rw [hks] at hsplit
  suffices hfirst : ∃ others', takeDue t (before ++ k :: after) = some (x, others') ∧
      ∃ front back, left ++ right = front ++ back ∧ others' = front ++ k :: back by
    obtain ⟨_, hnext, front, back, hothers, rfl⟩ := hfirst
    refine ⟨_, hnext, More.perform ⟨front, back, hothers, ?_⟩ x.work⟩
    simp [withTasks]
  have hbehind : ∀ mid, left = before ++ mid → after = mid ++ x :: right →
      ∃ others', takeDue t (before ++ k :: after) = some (x, others') ∧
        ∃ front back, left ++ right = front ++ back ∧ others' = front ++ k :: back := by
    rintro mid rfl rfl
    rw [List.forall_mem_append] at hleft
    have hbefore : ∀ y ∈ before ++ k :: mid, x.due < y.due :=
      List.forall_mem_append.2 ⟨hleft.1, List.forall_mem_cons.2 ⟨hlt, hleft.2⟩⟩
    have hnext := takeDue_of_first hdue hbefore hright
    refine ⟨before ++ k :: mid ++ right, ?_, before, mid ++ right, List.append_assoc .., ?_⟩
    · rwa [List.append_assoc] at hnext
    · rw [List.append_assoc, List.cons_append]
  rcases List.append_eq_append_iff.1 hsplit with ⟨mid, hl, ha⟩ | ⟨mid, hb, hr⟩
  · exact hbehind mid hl ha
  · cases mid with
    | nil => exact hbehind [] (by simpa using hb.symm) hr.symm
    | cons y mid =>
      obtain ⟨rfl, hrest⟩ : x = y ∧ right = mid ++ after := List.cons_eq_cons.1 hr
      subst hb hrest
      rw [List.forall_mem_append] at hright
      have hafter : ∀ y ∈ mid ++ k :: after, x.due ≤ y.due :=
        List.forall_mem_append.2
          ⟨hright.1, List.forall_mem_cons.2 ⟨Nat.le_of_lt hlt, hright.2⟩⟩
      have hnext := takeDue_of_first hdue hleft hafter
      refine ⟨left ++ (mid ++ k :: after), ?_, left ++ mid, after, (List.append_assoc ..).symm, ?_⟩
      · rw [List.append_assoc]
        exact hnext
      · rw [List.append_assoc]

/-- If nothing else is due by then, the additional task is done first. -/
theorem More.takeDue_self (h : More k s s') (hlater : ∀ x ∈ s.tasks, k.due < x.due)
    (hv : k.due ≤ v) :
    ∃ others, takeDue v s'.tasks = some (k, others) ∧ s'.withTasks others = s := by
  obtain ⟨before, after, hks, rfl⟩ := h
  rw [hks, List.forall_mem_append] at hlater
  refine ⟨before ++ after,
    takeDue_of_first hv hlater.1 fun x hx => Nat.le_of_lt (hlater.2 x hx), ?_⟩
  rw [← hks]
  rfl

/-- Right before the instant no task is due at it. -/
def FreeAt (s : Session) (u : Nat) : Prop :=
  ∀ t, t + 1 = u → ∀ k ∈ (s.runTo t).tasks, k.due ≠ u

/-- What is done before an instant at which no task is due. -/
theorem FreeAt.doTask (hfree : FreeAt s (t + 1)) (h : takeDue (t + 1) s.tasks = some (k, others)) :
    k.due < t + 1 ∧ FreeAt (s.doTask k others) (t + 1) := by
  have hfree' := hfree t rfl
  have hearly : k.due ≤ t := by
    refine Nat.le_of_not_lt fun hlt => ?_
    obtain ⟨before, after, hks, -, hbefore, hafter⟩ := takeDue_split h
    -- Were it due at the instant, it would still be there right before.
    have hnone : takeDue t s.tasks = none := by
      rw [takeDue_eq_none_iff, hks, List.forall_mem_append, List.forall_mem_cons]
      exact ⟨fun x hx => Nat.lt_trans hlt (hbefore x hx), hlt,
        fun x hx => Nat.lt_of_lt_of_le hlt (hafter x hx)⟩
    rw [runTo_of_none hnone] at hfree'
    exact hfree' k (by simp [hks]) (Nat.le_antisymm (takeDue_eq_some h).1 hlt)
  refine ⟨Nat.lt_succ_of_le hearly, fun n hn => ?_⟩
  obtain rfl : n = t := Nat.succ.inj hn
  rwa [runTo_of_some (takeDue_of_due_le h hearly)] at hfree'

/-- **One task by hand.** A task with an instant of its own may be kept out of the
list, and done when the time has come. -/
theorem runTo_of_more (h : More k s s') (hk : k.due = t + 1) (hfree : FreeAt s (t + 1))
    (hv : t + 1 ≤ v) : s'.runTo v = ((s.runTo (t + 1)).perform k.work).runTo v := by
  fun_induction runTo s (t + 1) generalizing s' with
  | case1 s hnone =>
    have hlater : ∀ x ∈ s.tasks, k.due < x.due := by
      rw [hk]
      exact takeDue_eq_none_iff.1 hnone
    obtain ⟨others, hnext, hs⟩ := h.takeDue_self hlater (hk ▸ hv)
    have hdone : s'.doTask k others = perform { s with now := Nat.max s.now (t + 1) } k.work := by
      rw [← hs, ← hk]
      rfl
    rw [runTo_of_some hnext, hdone]
  | case2 s x others hx ih =>
    obtain ⟨hlt, hrest⟩ := hfree.doTask hx
    obtain ⟨others', hnext, hmore⟩ := h.doTask hx (hk ▸ hlt)
    rw [runTo_of_some (takeDue_of_due_le hnext (Nat.le_trans (Nat.le_of_lt hlt) hv))]
    exact ih hmore hrest

/-! ## Lookups in the background -/

/-- Nothing else is due at the instants at which the lookup hears from a
server. -/
def Undisturbed : Lookup → Session → Prop
  | .done _, _ => True
  | .consult number host next, s => Undisturbed (next (s.fresh? number host)) s
  | .store number ttl host ips next, s => Undisturbed next (s.store number ttl host ips)
  | .ask server host next, s =>
    match s.reply server host with
    | ⟨none, _⟩ => True
    | ⟨some d, a⟩ =>
      FreeAt (s.ask server host) (s.now + d) ∧
        Undisturbed (next a) ((s.ask server host).runTo (s.now + d))

section

variable {server : Server} {host : Domain} {next : Answer → Lookup} {d : Nat} {a : Answer}

theorem undisturbed_ask (h : Undisturbed (.ask server host next) s)
    (hreply : s.reply server host = ⟨some d, a⟩) :
    FreeAt (s.ask server host) (s.now + d) ∧
      Undisturbed (next a) ((s.ask server host).runTo (s.now + d)) := by
  unfold Undisturbed at h
  rw [hreply] at h
  exact h

theorem reply_le_await (l : Lookup) :
    s.now + d ≤ (((s.ask server host).runTo (s.now + d)).await none l).2.now := by
  have hclock := (await_idle none l ((s.ask server host).runTo (s.now + d))).clock
  rwa [ask_runTo_now] at hclock

end

/-- A lookup that goes on by itself leaves what one leaves that is waited for. -/
theorem runTo_run (l : Lookup) (hs : Settled s) (hl : Undisturbed l s)
    (hv : (s.await none l).2.now ≤ v) : (run none l s).runTo v = (s.await none l).2.runTo v := by
  induction l generalizing s with
  | done a => rfl
  | consult number host next ih => exact ih _ hs hl hv
  | store number ttl host ips next ih => exact ih hs hl hv
  | ask server host next ih =>
    cases hreply : s.reply server host with
    | mk delay a =>
      cases delay with
      | none => rw [await_ask_forever next hreply, run, hreply]
      | some d =>
        obtain ⟨hfree, hrest⟩ := undisturbed_ask hl hreply
        rw [await_ask_answered next hreply] at hv ⊢
        have hsettled : Settled ((s.ask server host).runTo (s.now + d)) :=
          settled_runTo (Nat.le_add_right s.now d)
        have hnext := ih a hsettled hrest hv
        rw [run, hreply]
        cases d with
        | zero =>
          have hsame : (s.ask server host).runTo (s.now + 0) = s.ask server host :=
            runTo_self (s := s.ask server host) hs
          rw [hsame] at hnext ⊢
          exact hnext
        | succ d =>
          have hle := Nat.le_trans (reply_le_await (next a)) hv
          exact (runTo_of_more (more_defer _ _ _) rfl hfree hle).trans hnext

/-- **Cut off.** Once a lookup has come to its end, it makes no difference that it
was cut off. -/
theorem runTo_await {n : Nat} (l : Lookup) (hs : s.now < n) (hl : Undisturbed l s)
    (hcut : (s.await (some n) l).2.now ≤ v) (hv : (s.await none l).2.now ≤ v) :
    (s.await (some n) l).2.runTo v = (s.await none l).2.runTo v := by
  induction l generalizing s with
  | done a => rfl
  | consult number host next ih => exact ih _ hs hl hcut hv
  | store number ttl host ips next ih => exact ih hs hl hcut hv
  | ask server host next ih =>
    cases hreply : s.reply server host with
    | mk delay a =>
      cases delay with
      | none =>
        rw [await_ask_silent next hreply, runTo_now] at hcut
        rw [await_ask_silent next hreply, await_ask_forever next hreply]
        exact runTo_runTo _ (Nat.le_trans (Nat.le_max_right _ n) hcut)
      | some d =>
        obtain ⟨hfree, hrest⟩ := undisturbed_ask hl hreply
        rw [await_ask_answered next hreply] at hv ⊢
        by_cases hd : s.now + d < n
        · have hin : ∀ t, some n = some t → s.now + d < t := fun t ht => Option.some.inj ht ▸ hd
          rw [await_ask_in_time hreply hin] at hcut ⊢
          exact ih a (by rwa [ask_runTo_now]) hrest hcut hv
        · -- The rest of the lookup is done by itself when the server replies.
          rw [await_ask_late hreply (Nat.le_of_not_lt hd), runTo_now] at hcut
          rw [await_ask_late hreply (Nat.le_of_not_lt hd)]
          obtain ⟨e, rfl⟩ : ∃ e, d = e + 1 := ⟨d - 1, by omega⟩
          have hle := Nat.le_trans (reply_le_await (next a)) hv
          have hsettled : Settled ((s.ask server host).runTo (s.now + (e + 1))) :=
            settled_runTo (Nat.le_add_right s.now (e + 1))
          have hn : n ≤ v := Nat.le_trans (Nat.le_max_right _ n) hcut
          rw [runTo_runTo _ hn]
          calc ((s.ask server host).defer (s.now + (e + 1)) (.lookup (next a) none)).runTo v
              = (run none (next a) ((s.ask server host).runTo (s.now + (e + 1)))).runTo v :=
                runTo_of_more (more_defer _ _ _) rfl hfree hle
            _ = (((s.ask server host).runTo (s.now + (e + 1))).await none (next a)).2.runTo v :=
                runTo_run (next a) hsettled hrest hv

/-! ## Nothing else going on -/

theorem runTo_of_quiet (h : s.tasks = []) (t : Nat) :
    s.runTo t = { s with now := Nat.max s.now t } :=
  runTo_of_none (by rw [h]; rfl)

theorem tasks_runTo_of_quiet (h : s.tasks = []) (t : Nat) : (s.runTo t).tasks = [] := by
  rw [runTo_of_quiet h]
  exact h

/-- Without other tasks a lookup is not disturbed. -/
theorem undisturbed_of_quiet (l : Lookup) (h : s.tasks = []) : Undisturbed l s := by
  induction l generalizing s with
  | done a => trivial
  | consult number host next ih => exact ih _ h
  | store number ttl host ips next ih => exact ih h
  | ask server host next ih =>
    have hask : (s.ask server host).tasks = [] := h
    unfold Undisturbed
    split
    · trivial
    · rename_i d a _
      refine ⟨fun t _ k hk => ?_, ih a (tasks_runTo_of_quiet hask _)⟩
      rw [tasks_runTo_of_quiet hask t] at hk
      cases hk

theorem await_quiet (l : Lookup) (h : s.tasks = []) : (s.await none l).2.tasks = [] := by
  induction l generalizing s with
  | done a => exact h
  | consult number host next ih => exact ih _ h
  | store number ttl host ips next ih => exact ih h
  | ask server host next ih =>
    have hask : (s.ask server host).tasks = [] := h
    cases hreply : s.reply server host with
    | mk delay a =>
      cases delay with
      | none =>
        rw [await_ask_forever next hreply]
        exact h
      | some d =>
        rw [await_ask_answered next hreply]
        exact ih a (tasks_runTo_of_quiet hask _)

/-! ## Questions -/

theorem questions_run (ticket : Option Nat) (l : Lookup) (s : Session) :
    s.record.questions <+: (run ticket l s).record.questions := by
  induction l generalizing s with
  | done a => cases ticket <;> exact List.prefix_rfl
  | consult number host next ih => exact ih _ s
  | store number ttl host ips next ih => exact ih (s.store number ttl host ips)
  | ask server host next ih =>
    have hask : s.record.questions <+: (s.ask server host).record.questions :=
      List.prefix_append _ _
    unfold run
    split
    · exact hask
    · exact hask.trans (ih _ _)
    · exact hask

theorem questions_perform (w : Work) (s : Session) :
    s.record.questions <+: (s.perform w).record.questions := by
  cases w with
  | lookup rest ticket => exact questions_run ticket rest s
  | attempt a r =>
    show s.record.questions <+: (s.endLate a r).record.questions
    unfold endLate
    split <;> exact List.prefix_rfl

theorem questions_runTo (s : Session) (t : Nat) :
    s.record.questions <+: (s.runTo t).record.questions := by
  fun_induction runTo s t with
  | case1 s h => exact List.prefix_rfl
  | case2 s k others h ih =>
    have hdone : s.record.questions <+: (s.doTask k others).record.questions :=
      questions_perform k.work { s with now := Nat.max s.now k.due, tasks := others }
    exact hdone.trans ih

/-- The question of a server comes first, whatever happens while it is waited
for. -/
theorem questions_lookup_server (s : Session) (server : Server) (deadline : Option Nat)
    (host : Domain) :
    s.record.questions ++ [⟨server, host, s.now⟩] <+:
      (s.lookup (.server server) deadline host).2.record.questions := by
  have hask : s.record.questions ++ [⟨server, host, s.now⟩] =
      (s.ask server host).record.questions := rfl
  rw [hask]
  show _ <+: (s.await deadline (.ask server host .done)).2.record.questions
  unfold await
  split
  · exact List.prefix_rfl
  · exact questions_runTo _ _
  · exact questions_runTo _ _
  · split
    · exact questions_runTo _ _
    · exact questions_runTo ((s.ask server host).defer _ _) _

/-- If nothing else is going on, no server is asked any more. -/
theorem questions_runTo_of_quiet (h : s.tasks = []) (t : Nat) :
    (s.runTo t).record.questions = s.record.questions := by
  rw [runTo_of_quiet h]

theorem questions_lookup_server_forever (h : s.tasks = []) (server : Server) (host : Domain) :
    (s.lookup (.server server) none host).2.record.questions =
      s.record.questions ++ [⟨server, host, s.now⟩] := by
  have hask : (s.ask server host).tasks = [] := h
  show (s.await none (.ask server host .done)).2.record.questions = _
  unfold await
  split
  · rfl
  · rename_i heq; cases heq
  · exact questions_runTo_of_quiet hask _
  · rename_i heq; cases heq

/-- If nothing else is going on, a server is asked once, with a deadline and
without. -/
theorem questions_lookup_server_of_quiet (h : s.tasks = []) (server : Server)
    {deadline : Option Nat} (ht : ∀ t, deadline = some t → s.now < t) (host : Domain) :
    (s.lookup (.server server) deadline host).2.record.questions =
      s.record.questions ++ [⟨server, host, s.now⟩] := by
  cases deadline with
  | none => exact questions_lookup_server_forever h server host
  | some n =>
    have hquiet : (s.lookup (.server server) none host).2.tasks = [] := await_quiet _ h
    obtain ⟨v, hend⟩ : ∃ v, (s.lookup (.server server) (some n) host).2.runTo v =
        (s.lookup (.server server) none host).2.runTo v :=
      ⟨max _ _, runTo_await (.ask server host .done) (ht n rfl) (undisturbed_of_quiet _ h)
        (Nat.le_max_left _ _) (Nat.le_max_right _ _)⟩
    -- What is asked by the deadline lies between the one question and all questions.
    have hfirst := questions_lookup_server s server (some n) host
    have hall := questions_runTo (s.lookup (.server server) (some n) host).2 v
    rw [hend, questions_runTo_of_quiet hquiet, questions_lookup_server_forever h] at hall
    exact (hfirst.eq_of_length_le hall.length_le).symm

end NetDial.Session
