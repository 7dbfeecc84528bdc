import NetDial.Filter.Basic

/-!
# Even shares

`max n` takes addresses in two steps. The shares of the families come from the
number of places and of addresses alone (`quota`), and that they are as even as
possible is arithmetic. The walk over the candidates then spends the shares
(`takeQuota`), so that what it takes of a family is a beginning of that family,
as long as its share or as the family.

A candidate without IP address belongs to no family. It is never taken, but it
counts when the length of the list is compared with `n`, so that there may be
less than `n` addresses to take.

**Results.**
* `quota_total`, `quota_fairest`: the shares fill the places, and if there are
  addresses for all of them then no other shares are as even.
* `takeQuota_sublist`, `filter_takeQuota`, `sharesOf_takeQuota`: what the walk
  takes, and how much.
* `maxChecked?_eq`: no subtraction goes below zero.
* `max_evenly`: what `max n` selects.
-/
namespace NetDial.Filter

/-! ## Shares -/

/-- How far the shares are apart. -/
def Quota.gap (q : Quota) : Nat :=
  ((q.v4 : Int) - q.v6).natAbs

/-- The shares fill `n` places from `c4` and `c6` addresses, no shares that do
are closer together, and of those that are as close none gives IPv4 more. -/
structure Quota.IsFairest (n c4 c6 : Nat) (q : Quota) : Prop where
  total : q.v4 + q.v6 = n
  v4_le : q.v4 ≤ c4
  v6_le : q.v6 ≤ c6
  fair : ∀ r : Quota, r.v4 + r.v6 = n → r.v4 ≤ c4 → r.v6 ≤ c6 →
    q.gap < r.gap ∨ q.gap = r.gap ∧ r.v4 ≤ q.v4

/-- Either one of the families cannot fill its half, or both can. -/
theorem quota_cases (n c4 c6 : Nat) :
    (c6 ≤ n / 2 ∧ quota n c4 c6 = ⟨n - c6, c6⟩) ∨
      (c4 ≤ n / 2 ∧ n / 2 < c6 ∧ quota n c4 c6 = ⟨c4, n - c4⟩) ∨
      (n / 2 < c4 ∧ n / 2 < c6 ∧ quota n c4 c6 = ⟨n - n / 2, n / 2⟩) := by
  simp only [quota]
  by_cases h6 : c6 ≤ n / 2
  · simp [h6]
  · by_cases h4 : c4 ≤ n / 2
    · simp [h6, h4]; omega
    · simp [h6, h4]; omega

theorem quota_total (n c4 c6 : Nat) : (quota n c4 c6).v4 + (quota n c4 c6).v6 = n := by
  rcases quota_cases n c4 c6 with ⟨h, hq⟩ | ⟨h, -, hq⟩ | ⟨-, -, hq⟩
  · rw [hq]; simp only; omega
  · rw [hq]; simp only; omega
  · rw [hq]; simp only; omega

/-- If there are addresses for all places then no shares are as even. -/
theorem quota_fairest {n c4 c6 : Nat} (h : n < c4 + c6) :
    (quota n c4 c6).IsFairest n c4 c6 := by
  have htotal := quota_total n c4 c6
  rcases quota_cases n c4 c6 with ⟨h6, hq⟩ | ⟨h4, h6, hq⟩ | ⟨h4, h6, hq⟩
  · rw [hq] at htotal ⊢
    refine ⟨htotal, by simp only; omega, Nat.le_refl c6, fun r hr hr4 hr6 => ?_⟩
    simp only [Quota.gap]
    omega
  · rw [hq] at htotal ⊢
    refine ⟨htotal, Nat.le_refl c4, by simp only; omega, fun r hr hr4 hr6 => ?_⟩
    simp only [Quota.gap]
    omega
  · -- Only here both families have a choice, and an odd place is left over.
    rw [hq] at htotal ⊢
    refine ⟨htotal, by simp only; omega, by simp only; omega, fun r hr hr4 hr6 => ?_⟩
    simp only [Quota.gap]
    omega

/-! ## Families -/

variable {n j : Nat} {cs : Candidates}

/-- The candidate at an index has the property. -/
def holdsAt (p : Option Ip → Bool) (cs : Candidates) (i : Nat) : Bool :=
  cs[i]?.any p

/-- How many of the selected candidates are of each family. -/
def sharesOf (cs : Candidates) (selected : List Nat) : Quota :=
  ⟨selected.countP (holdsAt isV4Candidate cs), selected.countP (holdsAt isV6Candidate cs)⟩

theorem holdsAt_length (p : Option Ip → Bool) (pre rest : Candidates) (c : Option Ip) :
    holdsAt p (pre ++ c :: rest) pre.length = p c := by
  simp [holdsAt]

/-- An address is of exactly one family. -/
theorem isV4Candidate_eq_not {c : Option Ip} (h : c ≠ none) :
    isV4Candidate c = !isV6Candidate c := by
  rcases c with _ | x | x
  · exact absurd rfl h
  · rfl
  · rfl

theorem holdsAt_eq_not {ip : Ip} (h : cs[j]? = some (some ip)) :
    holdsAt isV4Candidate cs j = !holdsAt isV6Candidate cs j := by
  unfold holdsAt
  rw [h]
  exact isV4Candidate_eq_not (Option.some_ne_none ip)

theorem exists_ip_of_family
    (h : holdsAt isV4Candidate cs j = true ∨ holdsAt isV6Candidate cs j = true) :
    ∃ ip, cs[j]? = some (some ip) := by
  unfold holdsAt at h
  rcases hj : cs[j]? with _ | _ | ip
  · simp [hj] at h
  · simp [hj, isV4Candidate, isV6Candidate] at h
  · exact ⟨ip, rfl⟩

theorem length_eq_countP_add {α : Type} {p q : α → Bool} {l : List α}
    (h : ∀ x ∈ l, p x = !q x) : l.length = l.countP p + l.countP q := by
  have hp : l.countP p = l.countP fun x => !q x := by
    apply List.countP_congr
    intro x hx
    rw [h x hx]
  rw [hp, List.length_eq_countP_add_countP q, Nat.add_comm]
  simp

theorem allWhere_eq (p : Option Ip → Bool) (cs : Candidates) :
    allWhere p cs = (List.range' 0 cs.length).filter (holdsAt p cs) := by
  unfold allWhere allIndices
  rw [List.range_eq_range']
  rfl

theorem length_allWhere (p : Option Ip → Bool) (cs : Candidates) :
    (allWhere p cs).length = cs.countP p := by
  have hmap : (List.range cs.length).map (fun i => cs[i]?) = cs.map some := by
    apply List.ext_getElem
    · simp
    · simp
  have hcount := congrArg (List.countP fun c => c.any p) hmap
  unfold allWhere allIndices
  rw [← List.countP_eq_length_filter]
  simpa [List.countP_map, Function.comp_def] using hcount

/-! ## The walk over the candidates -/

theorem takeQuota_sublist (i : Nat) (q : Quota) (cs : Candidates) :
    (takeQuota i q cs).Sublist (List.range' i cs.length) := by
  induction cs generalizing i q with
  | nil => exact List.Sublist.slnil
  | cons c cs ih =>
    rw [takeQuota, List.length_cons, List.range'_succ]
    split
    · exact (ih _ _).cons_cons i
    · split
      · exact (ih _ _).cons_cons i
      · exact (ih _ _).cons i

/-- One step of the walk, `pre` being the candidates in front. -/
theorem takeQuota_cons (q : Quota) (pre rest : Candidates) (c : Option Ip) :
    takeQuota pre.length q (c :: rest) =
      if 0 < q.v4 ∧ isV4Candidate c then
        pre.length :: takeQuota (pre ++ [c]).length { q with v4 := q.v4 - 1 } rest
      else if 0 < q.v6 ∧ isV6Candidate c then
        pre.length :: takeQuota (pre ++ [c]).length { q with v6 := q.v6 - 1 } rest
      else takeQuota (pre ++ [c]).length q rest := by
  simp [takeQuota]

/-- Of each family the walk takes the first addresses, as many as its share. The
induction is on what is left to walk, with the list behind it as a whole, because
indices are looked up in that. -/
theorem filter_takeQuota (q : Quota) (pre rest : Candidates) :
    (takeQuota pre.length q rest).filter (holdsAt isV4Candidate (pre ++ rest)) =
        ((List.range' pre.length rest.length).filter
          (holdsAt isV4Candidate (pre ++ rest))).take q.v4 ∧
      (takeQuota pre.length q rest).filter (holdsAt isV6Candidate (pre ++ rest)) =
        ((List.range' pre.length rest.length).filter
          (holdsAt isV6Candidate (pre ++ rest))).take q.v6 := by
  induction rest generalizing pre q with
  | nil => simp [takeQuota]
  | cons c rest ih =>
    obtain ⟨v4, v6⟩ := q
    have hcs : pre ++ [c] ++ rest = pre ++ c :: rest := by simp
    have hlen : (pre ++ [c]).length = pre.length + 1 := by simp
    have hc4 := holdsAt_length isV4Candidate pre rest c
    have hc6 := holdsAt_length isV6Candidate pre rest c
    have hrest := fun r => ih r (pre ++ [c])
    rw [hcs] at hrest
    rw [takeQuota_cons, List.length_cons, List.range'_succ, ← hlen]
    have hnone : isV4Candidate none = false ∧ isV6Candidate none = false := ⟨rfl, rfl⟩
    have hfour : ∀ x, isV4Candidate (some (.v4 x)) = true ∧ isV6Candidate (some (.v4 x)) = false :=
      fun _ => ⟨rfl, rfl⟩
    have hsix : ∀ x, isV4Candidate (some (.v6 x)) = false ∧ isV6Candidate (some (.v6 x)) = true :=
      fun _ => ⟨rfl, rfl⟩
    rcases c with _ | x | x
    · simpa [List.filter_cons, hc4, hc6, hnone] using hrest ⟨v4, v6⟩
    · cases v4 with
      | zero => simpa [List.filter_cons, hc4, hc6, hfour] using hrest ⟨0, v6⟩
      | succ k => simpa [List.filter_cons, hc4, hc6, hfour] using hrest ⟨k, v6⟩
    · cases v6 with
      | zero => simpa [List.filter_cons, hc4, hc6, hsix] using hrest ⟨v4, 0⟩
      | succ k => simpa [List.filter_cons, hc4, hc6, hsix] using hrest ⟨v4, k⟩

/-- Every candidate that is taken is of a family. -/
theorem family_of_mem_takeQuota (q : Quota) (pre rest : Candidates) :
    ∀ j ∈ takeQuota pre.length q rest, holdsAt isV4Candidate (pre ++ rest) j = true ∨
      holdsAt isV6Candidate (pre ++ rest) j = true := by
  induction rest generalizing pre q with
  | nil => simp [takeQuota]
  | cons c rest ih =>
    intro j hj
    have hcs : pre ++ [c] ++ rest = pre ++ c :: rest := by simp
    have hrest := fun r => ih r (pre ++ [c])
    rw [hcs] at hrest
    rw [takeQuota_cons] at hj
    split at hj
    · rename_i hc
      rcases List.mem_cons.1 hj with rfl | hj
      · left
        rw [holdsAt_length]
        exact hc.2
      · exact hrest _ j hj
    · split at hj
      · rename_i hc
        rcases List.mem_cons.1 hj with rfl | hj
        · right
          rw [holdsAt_length]
          exact hc.2
        · exact hrest _ j hj
      · exact hrest _ j hj

theorem filter_takeQuota_all (q : Quota) (cs : Candidates) :
    (takeQuota 0 q cs).filter (holdsAt isV4Candidate cs) =
        (allWhere isV4Candidate cs).take q.v4 ∧
      (takeQuota 0 q cs).filter (holdsAt isV6Candidate cs) =
        (allWhere isV6Candidate cs).take q.v6 := by
  rw [allWhere_eq, allWhere_eq]
  exact filter_takeQuota q [] cs

theorem sharesOf_takeQuota (q : Quota) (cs : Candidates) :
    sharesOf cs (takeQuota 0 q cs) =
      ⟨min q.v4 (cs.countP isV4Candidate), min q.v6 (cs.countP isV6Candidate)⟩ := by
  obtain ⟨h4, h6⟩ := filter_takeQuota_all q cs
  unfold sharesOf
  rw [List.countP_eq_length_filter, List.countP_eq_length_filter, h4, h6, List.length_take,
    List.length_take, length_allWhere, length_allWhere]

theorem length_takeQuota (q : Quota) (cs : Candidates) :
    (takeQuota 0 q cs).length =
      (sharesOf cs (takeQuota 0 q cs)).v4 + (sharesOf cs (takeQuota 0 q cs)).v6 := by
  apply length_eq_countP_add
  intro j hj
  obtain ⟨ip, hip⟩ := exists_ip_of_family (family_of_mem_takeQuota q [] cs j hj)
  exact holdsAt_eq_not hip

/-! ## Checked subtractions -/

/-- `m - n`; fails if that is below zero. -/
def minus? (m n : Nat) : Option Nat :=
  if n ≤ m then some (m - n) else none

/-- The shares; fails if a subtraction does. -/
def quotaChecked? (n c4 c6 : Nat) : Option Quota :=
  let half := n / 2
  if c6 ≤ half then (minus? n c6).map fun v4 => ⟨v4, c6⟩
  else if c4 ≤ half then (minus? n c4).map fun v6 => ⟨c4, v6⟩
  else (minus? n half).map fun v4 => ⟨v4, half⟩

/-- The walk; fails if a subtraction does. -/
def takeQuotaChecked? (i : Nat) (q : Quota) : Candidates → Option (List Nat)
  | [] => some []
  | c :: cs =>
    if 0 < q.v4 ∧ isV4Candidate c then do
      let v4 ← minus? q.v4 1
      let taken ← takeQuotaChecked? (i + 1) { q with v4 := v4 } cs
      return i :: taken
    else if 0 < q.v6 ∧ isV6Candidate c then do
      let v6 ← minus? q.v6 1
      let taken ← takeQuotaChecked? (i + 1) { q with v6 := v6 } cs
      return i :: taken
    else takeQuotaChecked? (i + 1) q cs

/-- What `max n` selects; fails if a subtraction does. -/
def maxChecked? (n : Nat) (cs : Candidates) : Option (List Nat) :=
  if cs.length ≤ n then some (allIndices cs)
  else do
    let q ← quotaChecked? n (cs.countP isV4Candidate) (cs.countP isV6Candidate)
    takeQuotaChecked? 0 q cs

theorem minus?_eq {m : Nat} (h : n ≤ m) : minus? m n = some (m - n) :=
  if_pos h

theorem quotaChecked?_eq (n c4 c6 : Nat) : quotaChecked? n c4 c6 = some (quota n c4 c6) := by
  simp only [quotaChecked?, quota]
  split
  · rw [minus?_eq (by omega)]
    rfl
  · split
    · rw [minus?_eq (by omega)]
      rfl
    · rw [minus?_eq (by omega)]
      rfl

theorem takeQuotaChecked?_eq (i : Nat) (q : Quota) (cs : Candidates) :
    takeQuotaChecked? i q cs = some (takeQuota i q cs) := by
  induction cs generalizing i q with
  | nil => rfl
  | cons c cs ih =>
    rw [takeQuotaChecked?, takeQuota]
    split
    · rename_i h
      rw [minus?_eq h.1]
      simp [ih]
    · split
      · rename_i h
        rw [minus?_eq h.1]
        simp [ih]
      · exact ih _ _

/-- No subtraction fails. -/
theorem maxChecked?_eq (n : Nat) (cs : Candidates) :
    maxChecked? n cs = some ((max n).select cs) := by
  simp only [maxChecked?, max]
  split
  · rfl
  · rw [quotaChecked?_eq]
    exact takeQuotaChecked?_eq 0 _ cs

/-! ## What is selected -/

theorem max_select_of_lt (h : n < cs.length) :
    (max n).select cs =
      takeQuota 0 (quota n (cs.countP isV4Candidate) (cs.countP isV6Candidate)) cs :=
  if_neg (Nat.not_le_of_lt h)

/-- If every candidate has an IP address then no place stays empty. -/
theorem max_select_full (h : n < cs.length) (hips : ∀ c ∈ cs, c ≠ none) :
    ((max n).select cs).length = n ∧
      (sharesOf cs ((max n).select cs)).IsFairest n (cs.countP isV4Candidate)
        (cs.countP isV6Candidate) := by
  have hcount : cs.length = cs.countP isV4Candidate + cs.countP isV6Candidate :=
    length_eq_countP_add fun c hc => isV4Candidate_eq_not (hips c hc)
  have hfair := quota_fairest (show n < cs.countP isV4Candidate + cs.countP isV6Candidate by omega)
  rw [max_select_of_lt h, length_takeQuota, sharesOf_takeQuota, Nat.min_eq_left hfair.v4_le,
    Nat.min_eq_left hfair.v6_le]
  exact ⟨hfair.total, hfair⟩

/-- **Even shares.** Everything is selected of a list of at most `n` candidates.
Of a longer one at most `n` addresses are, in the order of the list, none of them
without IP address and in each family the first ones; and if every candidate has
an IP address then exactly `n` are selected, as evenly from both families as there
are addresses for. No subtraction goes below zero. -/
theorem max_evenly (n : Nat) (cs : Candidates) :
    let selected := (max n).select cs
    (cs.length ≤ n → selected = allIndices cs) ∧
    (n < cs.length →
      selected.Pairwise (· < ·) ∧
      selected.length ≤ n ∧
      (∀ i ∈ selected, ∃ ip, cs[i]? = some (some ip)) ∧
      selected.filter (holdsAt isV4Candidate cs) <+: allWhere isV4Candidate cs ∧
      selected.filter (holdsAt isV6Candidate cs) <+: allWhere isV6Candidate cs ∧
      ((∀ c ∈ cs, c ≠ none) →
        selected.length = n ∧
        (sharesOf cs selected).IsFairest n (cs.countP isV4Candidate)
          (cs.countP isV6Candidate))) ∧
    maxChecked? n cs = some selected := by
  intro selected
  refine ⟨fun h => if_pos h, fun h => ?_, maxChecked?_eq n cs⟩
  generalize hq : quota n (cs.countP isV4Candidate) (cs.countP isV6Candidate) = q
  have hselected : selected = takeQuota 0 q cs := hq ▸ max_select_of_lt h
  refine ⟨?ascending, ?few, ?addresses, ?front4, ?front6, max_select_full h⟩
  case ascending =>
    rw [hselected]
    exact List.Pairwise.sublist (takeQuota_sublist 0 q cs) (List.pairwise_lt_range' 1)
  case few =>
    have htotal : q.v4 + q.v6 = n := hq ▸ quota_total n _ _
    rw [hselected, length_takeQuota, sharesOf_takeQuota]
    simp only
    omega
  case addresses =>
    intro j hj
    rw [hselected] at hj
    exact exists_ip_of_family (family_of_mem_takeQuota q [] cs j hj)
  case front4 =>
    rw [hselected, (filter_takeQuota_all q cs).1]
    exact List.take_prefix _ _
  case front6 =>
    rw [hselected, (filter_takeQuota_all q cs).2]
    exact List.take_prefix _ _

/-- Of three places IPv4 takes its half, which is all it has, and IPv6 takes the
odd one too. -/
theorem max_evenly_odd :
    let v4 : Option Ip := some (.v4 .unspecified)
    let v6 : Option Ip := some (.v6 .unspecified)
    let cs := [v6, v6, v4, v6]
    (3 < cs.length ∧ ∀ c ∈ cs, c ≠ none) ∧ (max 3).select cs = [0, 1, 2] ∧
      (sharesOf cs [0, 1, 2]).IsFairest 3 1 3 := by
  intro v4 v6 cs
  have hlong : 3 < cs.length := by decide
  have hips : ∀ c ∈ cs, c ≠ none := by decide
  have hselected : (max 3).select cs = [0, 1, 2] := by decide
  obtain ⟨-, -, -, -, -, hfull⟩ := (max_evenly 3 cs).2.1 hlong
  rw [hselected] at hfull
  exact ⟨⟨hlong, hips⟩, hselected, (hfull hips).2⟩

end NetDial.Filter
