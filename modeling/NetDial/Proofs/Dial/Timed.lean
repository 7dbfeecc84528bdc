import NetDial.Proofs.Dial.Deadline
import NetDial.Proofs.Error.Timeout

/-!
# Races against time

The calls of a race start at one instant, and each of them ends when it ends, or
never; two calls to one address may end differently. So the calls, their ends and
the deadline say all: the connection that is there first wins, if it is there
before the deadline. Otherwise an attempt that is cut off at the deadline arrives
behind all others, and its timeout is the error of the dial; and if none is cut
off then the call that ended last gives the error (`Decided`). Calls that end at
one instant may arrive in any order.

A race is taken to have no call that ends exactly at the deadline and, without a
deadline, no call that never ends.

**Results.**
* `Arrival.decided_of_first`, `Arrival.decided_of_failures`: what an order of
  arrival comes to that follows the ends of the calls.
* `arrival_numbered`, `arrival_arrivals`: the arrivals of a race, and those of a
  dial, follow the ends of their calls.
* `race_decided_by_time`: what every race and every dial comes to.
-/
namespace NetDial

/-- A call of the connector: its address, and what comes of it. -/
structure Trial where
  addr : NetAddr
  result : Connecting

namespace Trial

/-- When a call ends that starts at an instant and is not cut off. -/
def end? (c : Trial) (start : Nat) : Option Nat :=
  c.result.delay.map (start + ·)

/-- The call gets a connection at an instant before the deadline. -/
structure Connects (c : Trial) (start : Nat) (deadline : Option Nat) (t : Nat) : Prop where
  ends : c.end? start = some t
  connected : c.result.error = none
  inTime : ∀ e, deadline = some e → t < e

/-- The call is still going on at an instant. -/
def Pending (c : Trial) (start e : Nat) : Prop :=
  ∀ t, c.end? start = some t → e < t

end Trial

/-- What a dial returns whose calls start together: the first connection that is
there in time; or the timeout of a call that was pending at the deadline; or
the error of the call that ended last. -/
inductive Decided (network : Text) (start : Nat) (deadline : Option Nat) (trials : List Trial) :
    Except DialError NetAddr → Prop where
  | connected (c : Trial) (hc : c ∈ trials) (t : Nat) (h : c.Connects start deadline t)
      (least : ∀ c' ∈ trials, ∀ t', c'.Connects start deadline t' → t ≤ t') :
      Decided network start deadline trials (.ok c.addr)
  | cutOff (none : ∀ c ∈ trials, ∀ t, ¬ c.Connects start deadline t)
      (c : Trial) (hc : c ∈ trials) (e : Nat) (he : deadline = some e) (h : c.Pending start e)
      (err : DialError) (timeout : err.isTimeout = true) (addr : err.addr = some c.addr.text) :
      Decided network start deadline trials (.error err)
  | failed (none : ∀ c ∈ trials, ∀ t, ¬ c.Connects start deadline t)
      (ended : ∀ c ∈ trials, ∀ e, deadline = some e → ¬ c.Pending start e)
      (c : Trial) (hc : c ∈ trials) (t : Nat) (h : c.end? start = some t)
      (latest : ∀ c' ∈ trials, ∀ t', c'.end? start = some t' → t' ≤ t)
      (cause : Error) (hcause : c.result.error = some cause) :
      Decided network start deadline trials (.error (.ofConnect network c.addr.text cause))

/-- The attempts of these calls in an order in which they may arrive. -/
structure Arrival (n : Network) (start : Nat) (deadline : Option Nat) (trials : List Trial)
    (order : List Attempt) : Prop where
  sorted : order.Pairwise fun a b => a.finish ≤ b.finish
  sound : ∀ a ∈ order, ∃ c ∈ trials, c.result.EndsAs n c.addr deadline start a
  complete : ∀ c ∈ trials, ∃ a ∈ order, c.result.EndsAs n c.addr deadline start a

/-! ## The attempt of a call -/

section

variable {n : Network} {start : Nat} {deadline : Option Nat} {c : Trial} {a : Attempt}

/-- A call that does not end exactly at the deadline ends before it, or is
pending then. -/
theorem Connecting.EndsAs.before_or_pending (h : c.result.EndsAs n c.addr deadline start a)
    (hoff : ∀ t, c.end? start = some t → deadline ≠ some t) :
    (c.end? start = some a.finish ∧ a.error = c.result.error ∧ ∀ e, deadline = some e → a.finish < e) ∨
      (deadline = some a.finish ∧ c.Pending start a.finish ∧ a.error = some (.root .timeout)) := by
  cases h with
  | inTime d hd hin =>
    have hend : c.end? start = some (start + d) := by simp [Trial.end?, hd]
    refine .inl ⟨hend, rfl, fun e he => ?_⟩
    have hne : start + d ≠ e := fun heq => hoff _ hend (heq ▸ he)
    exact Nat.lt_of_le_of_ne (hin e he) hne
  | cutOff t ht hlate =>
    refine .inr ⟨ht, fun u hu => ?_, rfl⟩
    obtain ⟨d, hd, rfl⟩ := Option.map_eq_some_iff.1 hu
    exact hlate d hd

/-- An attempt that succeeds is a call that connects, and the other way
round. -/
theorem Connecting.EndsAs.connects_iff (h : c.result.EndsAs n c.addr deadline start a)
    (hoff : ∀ t, c.end? start = some t → deadline ≠ some t) (t : Nat) :
    c.Connects start deadline t ↔ a.succeeds = true ∧ a.finish = t := by
  rcases h.before_or_pending hoff with ⟨hend, herror, hin⟩ | ⟨hdeadline, hpending, herror⟩
  · rw [Attempt.succeeds, herror, Option.isNone_iff_eq_none]
    constructor
    · intro hc
      exact ⟨hc.connected, Option.some.inj (hend.symm.trans hc.ends)⟩
    · rintro ⟨hok, rfl⟩
      exact ⟨hend, hok, hin⟩
  · rw [Attempt.succeeds, herror]
    refine iff_of_false (fun hc => ?_) fun hc => by cases hc.1
    exact Nat.lt_asymm (hc.inTime _ hdeadline) (hpending t hc.ends)

end

/-! ## What an order of arrival comes to -/

namespace Arrival

variable {n : Network} {start : Nat} {deadline : Option Nat} {trials : List Trial}
  {order before after : List Attempt} {a : Attempt} (network : Text)

/-- The first connection to arrive is there no later than any other. -/
theorem decided_of_first (H : Arrival n start deadline trials order)
    (hoff : ∀ c ∈ trials, ∀ t, c.end? start = some t → deadline ≠ some t)
    (horder : order = before ++ a :: after) (hb : ∀ b ∈ before, b.succeeds = false)
    (ha : a.succeeds = true) : Decided network start deadline trials (.ok a.addr) := by
  obtain ⟨c, hc, hends⟩ := H.sound a (by simp [horder])
  rw [hends.addr_eq]
  refine .connected c hc a.finish ((hends.connects_iff (hoff c hc) _).2 ⟨ha, rfl⟩) ?_
  intro c' hc' t' hconnects
  obtain ⟨a', hmem, hends'⟩ := H.complete c' hc'
  obtain ⟨hok, rfl⟩ := (hends'.connects_iff (hoff c' hc') t').1 hconnects
  rw [horder, List.mem_append, List.mem_cons] at hmem
  rcases hmem with hmem | rfl | hmem
  · rw [hb a' hmem] at hok; cases hok
  · exact Nat.le_refl _
  · have hsorted := H.sorted
    rw [horder, List.pairwise_append, List.pairwise_cons] at hsorted
    exact hsorted.2.1.1 a' hmem

/-- Nothing arrives behind the last attempt, so it is one that was cut off if
any was, and else the call that ended last. -/
theorem decided_of_failures (H : Arrival n start deadline trials order)
    (hoff : ∀ c ∈ trials, ∀ t, c.end? start = some t → deadline ≠ some t)
    (hfail : ∀ b ∈ order, b.succeeds = false) (horder : order = before ++ [a]) {cause : Error}
    (hcause : a.error = some cause) :
    Decided network start deadline trials (.error (.ofConnect network a.addr.text cause)) := by
  obtain ⟨c, hc, hends⟩ := H.sound a (by simp [horder])
  have hnone : ∀ c ∈ trials, ∀ t, ¬ c.Connects start deadline t := by
    intro c hc t hconnects
    obtain ⟨a', hmem, hends'⟩ := H.complete c hc
    have hok := ((hends'.connects_iff (hoff c hc) t).1 hconnects).1
    rw [hfail a' hmem] at hok; cases hok
  have hlast : ∀ b ∈ order, b.finish ≤ a.finish := by
    have hsorted := H.sorted
    rw [horder, List.pairwise_append] at hsorted
    intro b hb
    rw [horder, List.mem_append, List.mem_singleton] at hb
    rcases hb with hb | rfl
    · exact hsorted.2.2 b hb a (List.mem_singleton.2 rfl)
    · exact Nat.le_refl _
  rw [hends.addr_eq]
  rcases hends.before_or_pending (hoff c hc) with ⟨hend, herror, hin⟩ | ⟨he, hpending, herror⟩
  · -- a call that is cut off arrives at the deadline, and the last one before it
    have hended : ∀ c' ∈ trials, c'.end? start ≠ none ∧
        ∀ t, c'.end? start = some t → t ≤ a.finish := by
      intro c' hc'
      obtain ⟨a', hmem, hends'⟩ := H.complete c' hc'
      have hle := hlast a' hmem
      rcases hends'.before_or_pending (hoff c' hc') with ⟨hend', -, -⟩ | ⟨he', -, -⟩
      · rw [hend']
        exact ⟨by simp, fun t ht => Option.some.inj ht ▸ hle⟩
      · exact absurd (hin _ he') (Nat.not_lt.2 hle)
    refine .failed hnone (fun c' hc' e he hpending => ?_) c hc a.finish hend
      (fun c' hc' => (hended c' hc').2) cause (herror.symm.trans hcause)
    obtain ⟨hsome, hle⟩ := hended c' hc'
    obtain ⟨t, ht⟩ := Option.ne_none_iff_exists'.1 hsome
    exact Nat.lt_asymm (hpending t ht) (Nat.lt_of_le_of_lt (hle t ht) (hin e he))
  · rw [herror, Option.some.injEq] at hcause
    subst hcause
    exact .cutOff hnone c hc a.finish he hpending _ (DialError.isTimeout_ofConnect_timeout ..) rfl

/-- An order of arrival that follows the ends of the calls decides as they
do. -/
theorem decided (H : Arrival n start deadline trials order)
    (hoff : ∀ c ∈ trials, ∀ t, c.end? start = some t → deadline ≠ some t) (hne : trials ≠ []) :
    Decided network start deadline trials
      (Dialer.outcome network (Verdict.ofArrivals Attempt.succeeds order)) := by
  rcases exists_first_or_failures Attempt.succeeds order with ⟨before, a, after, horder, ha, hb⟩ | hfail
  · rw [horder, Dialer.outcome_of_first network hb ha]
    exact H.decided_of_first network hoff horder hb ha
  · have horder : order ≠ [] := by
      obtain ⟨c, hc⟩ := List.exists_mem_of_ne_nil trials hne
      obtain ⟨a, ha, -⟩ := H.complete c hc
      exact List.ne_nil_of_mem ha
    obtain ⟨before, a, cause, hsplit, hcause, hout⟩ :=
      Dialer.outcome_of_failures network horder hfail
    rw [hout]
    exact H.decided_of_failures network hoff hfail hsplit hcause

end Arrival

/-! ## The order of arrival of a race and of a dial -/

section

variable {n : Network} {start : Nat} {deadline : Option Nat} {trials : List Trial}

/-- Numbered attempts, sorted by their ends. -/
theorem arrival_numbered {attempt : Nat → Attempt} {order : List Nat}
    (hends : ∀ i (c : Trial), trials[i]? = some c → c.result.EndsAs n c.addr deadline start (attempt i))
    (ho : order.Perm (List.range trials.length))
    (hsorted : (order.map attempt).Pairwise fun a b => a.finish ≤ b.finish) :
    Arrival n start deadline trials (order.map attempt) where
  sorted := hsorted
  sound a ha := by
    obtain ⟨i, hi, rfl⟩ := List.mem_map.1 ha
    have hlt : i < trials.length := List.mem_range.1 (ho.mem_iff.1 hi)
    exact ⟨trials[i], List.getElem_mem hlt, hends i _ (List.getElem?_eq_getElem hlt)⟩
  complete c hc := by
    obtain ⟨i, hlt, rfl⟩ := List.getElem_of_mem hc
    have hi : i ∈ order := ho.mem_iff.2 (List.mem_range.2 hlt)
    exact ⟨attempt i, List.mem_map_of_mem hi, hends i _ (List.getElem?_eq_getElem hlt)⟩

variable {d : Dialer} {options : ConnectOptions}

theorem exists_trial_of_addr {call : Nat} {addr : NetAddr}
    (h : (trials.map Trial.addr)[call]? = some addr) :
    ∃ c, trials[call]? = some c ∧ c.addr = addr := by
  rw [List.getElem?_map] at h
  exact Option.map_eq_some_iff.1 h

theorem attempt?_isSome_of_trial
    (hends : options.deadline = none → ∀ c ∈ trials, c.end? start ≠ none)
    (hcalls : ∀ call (c : Trial), trials[call]? = some c →
      d.connector.connect call n c.addr options = c.result) :
    ∀ call addr, (trials.map Trial.addr)[call]? = some addr →
      (d.connector.attempt? call n options start addr).isSome = true := by
  intro call addr hplace
  obtain ⟨c, hc, rfl⟩ := exists_trial_of_addr hplace
  rw [Option.isSome_iff_ne_none, ne_eq, Connector.attempt?_eq_none_iff, hcalls call c hc]
  intro hforever
  obtain ⟨hnone, hdelay⟩ := hforever
  exact hends hnone c (List.mem_of_getElem? hc) (by rw [Trial.end?, hdelay]; rfl)

/-- The arrivals of a dial, if the calls are those of its connector. -/
theorem arrival_arrivals (hends : options.deadline = none → ∀ c ∈ trials, c.end? start ≠ none)
    (hcalls : ∀ call (c : Trial), trials[call]? = some c →
      d.connector.connect call n c.addr options = c.result) :
    Arrival n start options.deadline trials
      (d.arrivals n options start (trials.map Trial.addr)) where
  sorted := d.pairwise_arrivals n options start _
  sound a ha := by
    obtain ⟨call, addr, hplace, h⟩ := Dialer.mem_arrivals.1 ha
    obtain ⟨c, hc, rfl⟩ := exists_trial_of_addr hplace
    exact ⟨c, List.mem_of_getElem? hc, hcalls call c hc ▸ h⟩
  complete c hc := by
    obtain ⟨call, hcall⟩ := List.mem_iff_getElem?.1 hc
    have hplace : (trials.map Trial.addr)[call]? = some c.addr := by
      rw [List.getElem?_map, hcall, Option.map_some]
    obtain ⟨a, ha⟩ :=
      Option.isSome_iff_exists.1 (attempt?_isSome_of_trial hends hcalls call _ hplace)
    have h := Connector.attempt?_eq_some_iff.1 ha
    exact ⟨a, Dialer.mem_arrivals.2 ⟨call, c.addr, hplace, h⟩, hcalls call c hcall ▸ h⟩

end

/-- **Time.** Calls that start at one instant, none of which ends exactly at the
deadline, and all of which end if there is no deadline, decide a race by their
ends. It is so for every race in which the attempts arrive by their ends,
however it is interrupted and whatever the order at one instant; and it is so
for every dial that comes to make these calls, which returns. -/
theorem race_decided_by_time (network : Text) (n : Network) {start : Nat} {deadline : Option Nat}
    {trials : List Trial} (hne : trials ≠ [])
    (hoff : ∀ c ∈ trials, ∀ t, c.end? start = some t → deadline ≠ some t)
    (hends : deadline = none → ∀ c ∈ trials, c.end? start ≠ none) :
    (∀ (attempt : Nat → Attempt) (order : List Nat) (steps : List RaceStep) (r : Race),
      (∀ i (c : Trial), trials[i]? = some c → c.result.EndsAs n c.addr deadline start (attempt i)) →
      order.Perm (List.range trials.length) →
      (order.map attempt).Pairwise (fun a b => a.finish ≤ b.finish) →
      Race.run (fun i => (attempt i).succeeds) (Race.start trials.length) steps = some r →
      Race.arrivals steps <+: order →
      (r.isOver → r.verdict?.isSome = true) ∧ ∀ v, r.verdict? = some v →
        Decided network start deadline trials (Dialer.outcome network (v.map attempt))) ∧
    ∀ (s : Session) (d : Dialer) (address : Text) (t : Session),
      s.Tries d network address n t (trials.map Trial.addr) → t.now = start →
      d.effectiveDeadline s.now = deadline →
      (∀ call (c : Trial), trials[call]? = some c →
        d.connector.connect call n c.addr (d.options deadline) = c.result) →
      ∃ result, (s.dial d network address).1 = some result ∧
        Decided network start deadline trials result := by
  refine ⟨?_, ?_⟩
  · intro attempt order steps r hattempt ho hsorted hrun hp
    obtain ⟨taken, lost, H⟩ := Race.history_run hrun
    refine ⟨Race.verdict?_of_isOver H, fun v hv => ?_⟩
    rw [Race.outcome_verdict? hrun ho hp hv network]
    exact (arrival_numbered hattempt ho hsorted).decided network hoff hne
  · intro s d address t htries hnow hdeadline hcalls
    subst hnow hdeadline
    have harrival : Arrival n t.now (d.effectiveDeadline s.now) trials
        (d.arrivals n (d.options (d.effectiveDeadline s.now)) t.now (trials.map Trial.addr)) :=
      arrival_arrivals hends hcalls
    rw [Session.dial_of_tries htries]
    exact ⟨_, Session.connect_result (attempt?_isSome_of_trial hends hcalls),
      harrival.decided network hoff hne⟩

/-- Calls to two mirrors, the first of which is called twice: one of its calls fails,
and the other gets a connection when it is too late. The call to the second mirror
never ends. -/
def lateTrials : List Trial :=
  [⟨mirrorAddr 1, ⟨some 3, some (.root .connectDenied)⟩⟩, ⟨mirrorAddr 2, .never⟩,
    ⟨mirrorAddr 1, ⟨some 20, none⟩⟩]

/-- Makes these calls. -/
def lateDialer : Dialer :=
  { mirrorDialer (lateTrials.map Trial.result) with filter := ⟨fun _ => [0, 1, 0]⟩ }

theorem late_tries :
    Session.nobodyKnown.Tries lateDialer "tcp".toList "mirror:80".toList (.tcp .any)
      Session.nobodyKnown (lateTrials.map Trial.addr) where
  inTime u hu := by
    cases hu
    decide
  network := by rfl
  resolved := ⟨⟨.stream, [mirrorAddr 1, mirrorAddr 2, mirrorAddr 3]⟩, by rfl, by rfl⟩
  nonempty := by simp [lateTrials]

/-- The dial that makes these calls fails with a timeout. -/
theorem race_decided_by_time_late :
    (lateTrials ≠ [] ∧ (∀ c ∈ lateTrials, ∀ t, c.end? 0 = some t → some 10 ≠ some t) ∧
      ((some 10 : Option Nat) = none → ∀ c ∈ lateTrials, c.end? 0 ≠ none)) ∧
    ∃ e, (Session.nobodyKnown.dial lateDialer "tcp".toList "mirror:80".toList).1 =
        some (.error e) ∧ e.isTimeout = true := by
  have hne : lateTrials ≠ [] := by simp [lateTrials]
  have hoff : ∀ c ∈ lateTrials, ∀ t, c.end? 0 = some t → some 10 ≠ some t := by
    simp [lateTrials, Trial.end?, Connecting.never]
  have hends : (some 10 : Option Nat) = none → ∀ c ∈ lateTrials, c.end? 0 ≠ none := by simp
  have hcalls : ∀ call (c : Trial), lateTrials[call]? = some c →
      lateDialer.connector.connect call (.tcp .any) c.addr (lateDialer.options (some 10)) =
        c.result := by
    intro call c hc
    show (lateTrials.map Trial.result)[call]?.getD .never = c.result
    rw [List.getElem?_map, hc, Option.map_some, Option.getD_some]
  obtain ⟨result, hdial, hdecided⟩ := (race_decided_by_time "tcp".toList (.tcp .any) hne hoff hends).2
    Session.nobodyKnown lateDialer "mirror:80".toList Session.nobodyKnown late_tries rfl rfl hcalls
  have hlate : ∀ c ∈ lateTrials, ∀ t, ¬ c.Connects 0 (some 10) t := by
    intro c hc t h
    have hin := h.inTime 10 rfl
    have hend := h.ends
    have hok := h.connected
    simp only [lateTrials, List.mem_cons, List.not_mem_nil, or_false] at hc
    rcases hc with rfl | rfl | rfl
    · cases hok
    · cases hend
    · cases hend
      exact absurd hin (by decide)
  refine ⟨⟨hne, hoff, hends⟩, ?_⟩
  cases hdecided with
  | connected c hc t h => exact absurd h (hlate c hc t)
  | cutOff _ c hc e he h err timeout => exact ⟨err, hdial, timeout⟩
  | failed _ ended =>
    have hpending : Trial.Pending ⟨mirrorAddr 2, .never⟩ 0 10 := fun t ht => by cases ht
    exact absurd hpending (ended _ (by simp [lateTrials]) 10 rfl)

end NetDial
