import NetDial.Proofs.Race.Outcome
import NetDial.Proofs.Session.Waiting

/-!
# The attempts of a dial

An attempt is a call of the connector that is cut off at the deadline: it ends
as the call does if that is in time, and else at the deadline with a timeout
(`EndsAs`). A dial starts one attempt at each candidate, numbered by the places of
the candidates and all at the same instant, and they arrive in the order of their
ends. What the dial does then is said once, in `connect_cases`: it waits up to the
first connection and leaves the other attempts to themselves, or if there is no
connection it waits for all of them.

**Results.**
* `attempt?_eq_some_iff`, `attempt?_eq_none_iff`: what a call comes to.
* `mem_arrivals`, `pairwise_arrivals`, `arrivals_perm`: which attempts arrive,
  and in which order.
* `connect_cases`: what a dial does with its candidates.
* `connect_openings`, `connect_error`: which attempts are made, and what an
  error of theirs says.
* `connect_result`: attempts that all end decide the dial.
-/
namespace NetDial

/-- The attempt that a call comes to which starts now: the outcome of the call
if it comes by the deadline, and else a timeout at the deadline. -/
inductive Connecting.EndsAs (r : Connecting) (n : Network) (addr : NetAddr)
    (deadline : Option Nat) (now : Nat) : Attempt → Prop where
  | inTime (d : Nat) (hd : r.delay = some d) (hin : ∀ t, deadline = some t → now + d ≤ t) :
      EndsAs r n addr deadline now ⟨n, addr, now, now + d, r.error⟩
  | cutOff (t : Nat) (ht : deadline = some t) (hlate : ∀ d, r.delay = some d → t < now + d) :
      EndsAs r n addr deadline now ⟨n, addr, now, t, some (.root .timeout)⟩

namespace Connecting.EndsAs

variable {r : Connecting} {n : Network} {addr : NetAddr} {deadline : Option Nat} {now : Nat}
  {a : Attempt}

theorem addr_eq (h : r.EndsAs n addr deadline now a) : a.addr = addr := by
  cases h <;> rfl

end Connecting.EndsAs

namespace Connector

variable {c : Connector} {call : Nat} {n : Network} {options : ConnectOptions} {now : Nat}
  {addr : NetAddr} {a : Attempt}

theorem attempt?_eq_some_iff :
    c.attempt? call n options now addr = some a ↔
      (c.connect call n addr options).EndsAs n addr options.deadline now a := by
  unfold attempt?
  simp only
  constructor
  · intro h
    split at h
    · cases h
    · rename_i t hd ht
      cases h
      exact .cutOff t ht fun d hd' => by rw [hd] at hd'; cases hd'
    · rename_i d hd ht
      cases h
      exact .inTime d hd fun t ht' => by rw [ht] at ht'; cases ht'
    · rename_i d t hd ht
      split at h
      · rename_i hin
        cases h
        exact .inTime d hd fun u hu => by rw [ht, Option.some.injEq] at hu; omega
      · rename_i hlate
        cases h
        exact .cutOff t ht fun e he => by rw [hd, Option.some.injEq] at he; omega
  · intro h
    cases h with
    | inTime d hd hin =>
      rw [hd]
      cases ht : options.deadline with
      | none => rfl
      | some t => exact if_pos (hin t ht)
    | cutOff t ht hlate =>
      rw [ht]
      cases hd : (c.connect call n addr options).delay with
      | none => rfl
      | some d => exact if_neg (Nat.not_le_of_lt (hlate d hd))

/-- An attempt goes on for ever if its call does and there is no deadline. -/
theorem attempt?_eq_none_iff :
    c.attempt? call n options now addr = none ↔
      options.deadline = none ∧ (c.connect call n addr options).delay = none := by
  unfold attempt?
  simp only
  cases (c.connect call n addr options).delay <;> cases options.deadline <;> simp
  split <;> simp

end Connector

/-! ## The order of arrival -/

namespace Dialer

variable {d : Dialer} {n : Network} {options : ConnectOptions} {now : Nat}
  {candidates : List NetAddr} {a : Attempt}

theorem arrivals_perm (d : Dialer) (n : Network) (options : ConnectOptions) (now : Nat)
    (candidates : List NetAddr) :
    (d.arrivals n options now candidates).Perm (d.attempts n options now candidates) :=
  List.mergeSort_perm _ _

theorem pairwise_arrivals (d : Dialer) (n : Network) (options : ConnectOptions) (now : Nat)
    (candidates : List NetAddr) :
    (d.arrivals n options now candidates).Pairwise fun a b => a.finish ≤ b.finish := by
  have hsorted : (d.arrivals n options now candidates).Pairwise
      fun a b => decide (a.finish ≤ b.finish) = true :=
    List.pairwise_mergeSort (fun a b c => by simpa using Nat.le_trans)
      (fun a b => by simpa using Nat.le_total a.finish b.finish) _
  simpa using hsorted

theorem mem_arrivals :
    a ∈ d.arrivals n options now candidates ↔
      ∃ call addr, candidates[call]? = some addr ∧
        (d.connector.connect call n addr options).EndsAs n addr options.deadline now a := by
  rw [(d.arrivals_perm n options now candidates).mem_iff, attempts, List.mem_filterMap]
  simp only [Connector.attempt?_eq_some_iff]
  constructor
  · intro h
    obtain ⟨⟨addr, call⟩, hmem, hends⟩ := h
    exact ⟨call, addr, List.mk_mem_zipIdx_iff_getElem?.1 hmem, hends⟩
  · intro h
    obtain ⟨call, addr, hplace, hends⟩ := h
    exact ⟨(addr, call), List.mk_mem_zipIdx_iff_getElem?.2 hplace, hends⟩

/-- Every attempt that ends is at a candidate. -/
theorem addr_of_mem_arrivals (h : a ∈ d.arrivals n options now candidates) :
    a.addr ∈ candidates := by
  obtain ⟨call, addr, hplace, hends⟩ := mem_arrivals.1 h
  rw [hends.addr_eq]
  exact List.mem_of_getElem? hplace

theorem length_arrivals
    (h : ∀ call addr, candidates[call]? = some addr →
      (d.connector.attempt? call n options now addr).isSome = true) :
    (d.arrivals n options now candidates).length = candidates.length := by
  have hall : (d.attempts n options now candidates).length = candidates.zipIdx.length := by
    refine List.filterMap_length_eq_length.2 fun p hp => ?_
    exact h p.2 p.1 (List.mem_zipIdx_iff_getElem?.1 hp)
  rw [(d.arrivals_perm n options now candidates).length_eq, hall, List.length_zipIdx]

end Dialer

/-! ## Trying candidates -/

namespace Session

/-- The session after an attempt was started at each candidate. -/
def openAll (s : Session) (n : Network) (options : ConnectOptions) (candidates : List NetAddr) :
    Session :=
  candidates.zipIdx.foldl (fun s p => s.recordOpening p.2 n p.1 options) s

theorem openAll_openings (s : Session) (n : Network) (options : ConnectOptions)
    (candidates : List NetAddr) :
    (s.openAll n options candidates).record.openings =
      s.record.openings ++ candidates.zipIdx.map fun p => ⟨p.2, n, p.1, s.now, options⟩ := by
  unfold openAll
  generalize candidates.zipIdx = calls
  induction calls generalizing s with
  | nil => simp
  | cons p calls ih =>
    rw [List.foldl_cons, ih]
    simp [recordOpening]

theorem openAll_now (s : Session) (n : Network) (options : ConnectOptions)
    (candidates : List NetAddr) : (s.openAll n options candidates).now = s.now := by
  unfold openAll
  generalize candidates.zipIdx = calls
  induction calls generalizing s with
  | nil => rfl
  | cons p calls ih => exact ih (s.recordOpening p.2 n p.1 options)

theorem receive_idle (s : Session) (r : Resolver) (attempts : List Attempt) :
    Idle s (s.receive r attempts) := by
  induction attempts generalizing s with
  | nil => exact .refl s
  | cons a attempts ih =>
    exact ((runTo_idle s a.finish).trans (notify_idle _ r a.event)).trans (ih _)

/-- Waiting for attempts takes no longer than they do. -/
theorem receive_now_le {s : Session} {r : Resolver} {attempts : List Attempt} {t : Nat}
    (hs : s.now ≤ t) (h : ∀ a ∈ attempts, a.finish ≤ t) : (s.receive r attempts).now ≤ t := by
  induction attempts generalizing s with
  | nil => exact hs
  | cons a attempts ih =>
    rw [List.forall_mem_cons] at h
    refine ih ?_ h.2
    show (s.runTo a.finish).now ≤ t
    rw [runTo_now]
    exact Nat.max_le.2 ⟨hs, h.1⟩

theorem foldl_defer_idle (s : Session) (r : Resolver) (attempts : List Attempt) :
    Idle s (attempts.foldl (fun s a => s.defer a.finish (.attempt a r)) s) := by
  induction attempts generalizing s with
  | nil => exact .refl s
  | cons a attempts ih => exact (defer_idle s a.finish (.attempt a r)).trans (ih _)

theorem abandon_idle (s : Session) (r : Resolver) (attempts : List Attempt) :
    Idle s (s.abandon r attempts) :=
  (foldl_defer_idle s r attempts).trans (runTo_idle _ _)

/-- Leaving attempts to themselves takes no time. -/
theorem abandon_now (s : Session) (r : Resolver) (attempts : List Attempt) :
    (s.abandon r attempts).now = s.now := by
  have hdefer : (attempts.foldl (fun s a => s.defer a.finish (.attempt a r)) s).now = s.now := by
    induction attempts generalizing s with
    | nil => rfl
    | cons a attempts ih => exact ih (s.defer a.finish (.attempt a r))
  unfold abandon
  rw [runTo_now, hdefer]
  exact Nat.max_self s.now

variable {s : Session} {d : Dialer} {network : Text} {n : Network} {options : ConnectOptions}
  {candidates : List NetAddr}

/-- Either there is a first connection, which is returned while the attempts
behind it go on by themselves; or no attempt gets one, all that end are waited
for, and the dial fails unless it waits for ever. -/
theorem connect_cases (s : Session) (d : Dialer) (network : Text) (n : Network)
    (options : ConnectOptions) (candidates : List NetAddr) :
    (∃ before a after, d.arrivals n options s.now candidates = before ++ a :: after ∧
        (∀ b ∈ before, b.succeeds = false) ∧ a.succeeds = true ∧
        s.connect d network n options candidates =
          (some (.ok a.addr),
            (((s.openAll n options candidates).receive d.resolver (before ++ [a])).abandon
              d.resolver after).hold a.addr)) ∨
      ((∀ a ∈ d.arrivals n options s.now candidates, a.succeeds = false) ∧
        s.connect d network n options candidates =
          (if (d.arrivals n options s.now candidates).length < candidates.length then none
            else some (Dialer.outcome network
              (.lost (d.arrivals n options s.now candidates).getLast?)),
            (s.openAll n options candidates).receive d.resolver
              (d.arrivals n options s.now candidates))) := by
  unfold connect
  generalize horder : d.arrivals n options s.now candidates = order
  rcases exists_first_or_failures Attempt.succeeds order with
    ⟨before, a, after, rfl, ha, hb⟩ | hfail
  · refine .inl ⟨before, a, after, rfl, hb, ha, ?_⟩
    simp only [Verdict.ofArrivals_of_first hb ha, splitArrivals_of_first hb ha]
    rfl
  · refine .inr ⟨hfail, ?_⟩
    simp only [Verdict.ofArrivals_of_failures hfail, splitArrivals_of_failures hfail]
    split <;> rfl

/-- Trying candidates does not turn back the clock. -/
theorem le_connect_now (s : Session) (d : Dialer) (network : Text) (n : Network)
    (options : ConnectOptions) (candidates : List NetAddr) :
    s.now ≤ (s.connect d network n options candidates).2.now := by
  have hreceive : ∀ attempts, s.now ≤
      ((s.openAll n options candidates).receive d.resolver attempts).now := by
    intro attempts
    rw [← openAll_now s n options candidates]
    exact (receive_idle _ _ attempts).clock
  rcases connect_cases s d network n options candidates with ⟨before, a, after, -, -, -, h⟩ | ⟨-, h⟩
  · rw [h]
    show s.now ≤ (Session.abandon _ _ _).now
    rw [abandon_now]
    exact hreceive _
  · rw [h]
    exact hreceive _

/-- One attempt is made at each candidate, and there are no others. -/
theorem connect_openings :
    (s.connect d network n options candidates).2.record.openings =
      s.record.openings ++ candidates.zipIdx.map fun p => ⟨p.2, n, p.1, s.now, options⟩ := by
  rw [← openAll_openings]
  rcases connect_cases s d network n options candidates with ⟨before, a, after, -, -, -, h⟩ | ⟨-, h⟩
  · rw [h]
    show (Session.abandon _ _ _).record.openings = _
    rw [(abandon_idle _ _ _).openings, (receive_idle _ _ _).openings]
  · rw [h]
    exact (receive_idle _ _ _).openings

/-- A dial whose attempts all end, one at least, returns what the order of
their ends decides. -/
theorem connect_result
    (h : ∀ call addr, candidates[call]? = some addr →
      (d.connector.attempt? call n options s.now addr).isSome = true) :
    (s.connect d network n options candidates).1 =
      some (Dialer.outcome network
        (Verdict.ofArrivals Attempt.succeeds (d.arrivals n options s.now candidates))) := by
  rcases connect_cases s d network n options candidates with
    ⟨before, a, after, horder, hb, ha, hc⟩ | ⟨hfail, hc⟩
  · rw [hc, horder, Dialer.outcome_of_first network hb ha]
  · rw [hc, Verdict.ofArrivals_of_failures hfail]
    exact if_neg (by rw [Dialer.length_arrivals h]; exact Nat.lt_irrefl _)

/-- An error of a race comes from an attempt at a candidate and names it. -/
theorem connect_error {e : DialError} (hne : candidates ≠ [])
    (h : (s.connect d network n options candidates).1 = some (.error e)) :
    ∃ a ∈ candidates, ∃ cause, e = .ofConnect network a.text cause := by
  rcases connect_cases s d network n options candidates with
    ⟨before, a, after, -, -, -, hc⟩ | ⟨hfail, hc⟩
  · rw [hc] at h
    cases h
  · rw [hc] at h
    simp only at h
    split at h
    · cases h
    · rename_i hall
      have horder : d.arrivals n options s.now candidates ≠ [] := by
        intro hnil
        rw [hnil] at hall
        exact hall (List.length_pos_iff.2 hne)
      obtain ⟨before, a, cause, hsplit, -, hout⟩ :=
        Dialer.outcome_of_failures network horder hfail
      rw [Verdict.ofArrivals_of_failures hfail] at hout
      rw [hout] at h
      cases h
      have hmem : a ∈ d.arrivals n options s.now candidates := by simp [hsplit]
      exact ⟨a.addr, Dialer.addr_of_mem_arrivals hmem, cause, rfl⟩

end Session
end NetDial
