import NetDial.Proofs.Filter.Quota
import NetDial.Proofs.Filter.Selection

/-!
# The first of each family

Some filters look for the first address of one family or of both, and each does
so in its own way: by one search, by one search after another, by filtering and
then taking the first of what is left, or by one walk with a flag for each family.
On a list of at least two candidates they agree.

The walk with flags is the walk of `max` that has one place for each family. The
flags are spent places, and that the walk stops early does not matter, because it
would take nothing more.

A single candidate is an exception: filters that are for one family leave it as
it is, and filters for all addresses of a family do not.

**Results.**
* `firstWhere_eq_take`, `selectsFirst_firstWhere`: the search finds the first of
  all candidates with a property.
* `compose_first`: a filter before `first`.
* `firstOfEach_eq_takeQuota`, `isAscendingUnion_takeQuota`: the walk with flags
  takes what both searches find.
* `max_two_select`: two places go to one address of each family.
* `pickers_agree`: all of this.
-/
namespace NetDial.Filter

variable {p : Option Ip → Bool} {choose : Candidates → List Nat} {cs : Candidates} {f : Filter}
  {selected : List Nat}

/-! ## One search -/

/-- The first candidate with the property is selected and nothing else, or nothing
if no candidate has it. -/
inductive SelectsFirst (p : Option Ip → Bool) (cs : Candidates) : List Nat → Prop where
  | found {i : Nat} (h : holdsAt p cs i = true) (hfirst : ∀ j < i, holdsAt p cs j = false) :
      SelectsFirst p cs [i]
  | absent (h : ∀ i, holdsAt p cs i = false) : SelectsFirst p cs []

theorem holdsAt_of_le {i : Nat} (h : cs.length ≤ i) : holdsAt p cs i = false := by
  rw [holdsAt, List.getElem?_eq_none h]
  rfl

theorem holdsAt_of_lt {i : Nat} (h : i < cs.length) : holdsAt p cs i = p cs[i] := by
  rw [holdsAt, List.getElem?_eq_getElem h]
  rfl

theorem findIdx?_eq_some_iff {i : Nat} :
    cs.findIdx? p = some i ↔ holdsAt p cs i = true ∧ ∀ j < i, holdsAt p cs j = false := by
  rw [List.findIdx?_eq_some_iff_getElem]
  constructor
  · intro h
    obtain ⟨hi, hp, hfirst⟩ := h
    refine ⟨by rw [holdsAt_of_lt hi, hp], fun j hj => ?_⟩
    rw [holdsAt_of_lt (Nat.lt_trans hj hi)]
    exact Bool.eq_false_iff.2 (hfirst j hj)
  · intro h
    obtain ⟨hp, hfirst⟩ := h
    have hi : i < cs.length := by
      apply Nat.lt_of_not_le
      intro hle
      rw [holdsAt_of_le hle] at hp
      cases hp
    refine ⟨hi, by rw [← hp, holdsAt_of_lt hi], fun j hj => ?_⟩
    have := hfirst j hj
    rw [holdsAt_of_lt (Nat.lt_trans hj hi)] at this
    simp [this]

theorem selectsFirst_firstWhere (p : Option Ip → Bool) (cs : Candidates) :
    SelectsFirst p cs (firstWhere p cs) := by
  unfold firstWhere
  cases hfind : cs.findIdx? p with
  | some i =>
    obtain ⟨hp, hfirst⟩ := findIdx?_eq_some_iff.1 hfind
    exact .found hp hfirst
  | none =>
    refine .absent fun i => ?_
    rcases Nat.lt_or_ge i cs.length with hi | hi
    · rw [holdsAt_of_lt hi]
      exact List.findIdx?_eq_none_iff.1 hfind _ (List.getElem_mem hi)
    · exact holdsAt_of_le hi

/-- What the search finds is the first of all candidates with the property. -/
theorem head?_allWhere (p : Option Ip → Bool) (cs : Candidates) :
    (allWhere p cs).head? = cs.findIdx? p := by
  apply Option.ext
  intro i
  unfold allWhere allIndices
  rw [List.head?_filter, List.find?_range_eq_some, findIdx?_eq_some_iff]
  simp only [Bool.not_eq_true']
  constructor
  · intro h
    exact ⟨h.1, h.2.2⟩
  · intro h
    refine ⟨h.1, List.mem_range.2 ?_, h.2⟩
    exact lt_of_findIdx? (findIdx?_eq_some_iff.2 h)

theorem firstWhere_eq_take (p : Option Ip → Bool) (cs : Candidates) :
    firstWhere p cs = (allWhere p cs).take 1 := by
  rw [List.take_one, head?_allWhere]
  rfl

theorem unlessSingle_select (h : 2 ≤ cs.length) : (unlessSingle choose).select cs = choose cs :=
  if_neg (Nat.not_le_of_lt h)

/-! ## One search after another -/

theorem toList_or (o o' : Option Nat) :
    (o.or o').toList = if o.toList = [] then o'.toList else o.toList := by
  cases o with
  | none => rfl
  | some i => rfl

theorem default_select (h : 2 ≤ cs.length) :
    default.select cs =
      if firstV4.select cs = [] then firstV6.select cs else firstV4.select cs := by
  unfold default firstV4 firstV6
  rw [unlessSingle_select h, unlessSingle_select h, unlessSingle_select h]
  exact toList_or _ _

/-! ## A filter and then the first -/

theorem refine_first (cs : Candidates) (selected : List Nat) :
    refine cs selected first = selected.head?.toList := by
  cases selected with
  | nil => rfl
  | cons i selected => rfl

theorem compose_first (h : ∀ i ∈ f.select cs, i < cs.length) :
    (compose [f, first]).select cs = (f.select cs).take 1 := by
  show refine cs (refine cs (allIndices cs) f) first = _
  rw [refine_first, refine_allIndices, pick_allIndices h, List.take_one]

theorem compose_allWhere_first (h : 2 ≤ cs.length) (p : Option Ip → Bool) :
    (compose [⟨allWhere p⟩, first]).select cs = (unlessSingle (firstWhere p)).select cs := by
  rw [unlessSingle_select h, firstWhere_eq_take]
  apply compose_first
  intro i hi
  exact List.mem_range.1 (List.mem_of_mem_filter hi)

/-! ## One walk with flags -/

theorem takeQuota_zero (i : Nat) (cs : Candidates) : takeQuota i ⟨0, 0⟩ cs = [] := by
  induction cs generalizing i with
  | nil => rfl
  | cons c cs ih => simp [takeQuota, ih]

/-- The walk with flags has one place for each family that was not seen yet. -/
theorem firstOfEach_eq_takeQuota (i : Nat) (seenV4 seenV6 : Bool) (cs : Candidates) :
    firstOfEach i seenV4 seenV6 cs =
      takeQuota i ⟨if seenV4 then 0 else 1, if seenV6 then 0 else 1⟩ cs := by
  induction cs generalizing i seenV4 seenV6 with
  | nil => rfl
  | cons c cs ih =>
    rw [firstOfEach, takeQuota]
    cases seenV4 with
    | false => cases seenV6 <;> simp [ih]
    | true =>
      cases seenV6 with
      | false => simp [ih]
      | true => simp [takeQuota_zero]

theorem dualStack_select (h : 2 ≤ cs.length) :
    dualStack.select cs = takeQuota 0 ⟨1, 1⟩ cs := by
  unfold dualStack
  rw [unlessSingle_select h]
  exact firstOfEach_eq_takeQuota 0 false false cs

/-- The indices of both selections in ascending order. -/
structure IsAscendingUnion (selected left right : List Nat) : Prop where
  ascending : selected.Pairwise (· < ·)
  mem_iff : ∀ i, i ∈ selected ↔ i ∈ left ∨ i ∈ right

/-- With one place for each family the walk takes what both searches find. -/
theorem isAscendingUnion_takeQuota (cs : Candidates) :
    IsAscendingUnion (takeQuota 0 ⟨1, 1⟩ cs) (firstWhere isV4Candidate cs)
      (firstWhere isV6Candidate cs) := by
  obtain ⟨h4, h6⟩ := filter_takeQuota_all ⟨1, 1⟩ cs
  rw [← firstWhere_eq_take] at h4 h6
  refine ⟨List.Pairwise.sublist (takeQuota_sublist 0 _ cs) (List.pairwise_lt_range' 1), ?_⟩
  intro i
  rw [← h4, ← h6, List.mem_filter, List.mem_filter]
  constructor
  · intro hi
    rcases family_of_mem_takeQuota _ [] cs i hi with hv4 | hv6
    · exact .inl ⟨hi, hv4⟩
    · exact .inr ⟨hi, hv6⟩
  · intro h
    rcases h with ⟨hi, -⟩ | ⟨hi, -⟩
    · exact hi
    · exact hi

/-! ## Two places -/

theorem quota_two {c4 c6 : Nat} (h4 : 0 < c4) (h6 : 0 < c6) : quota 2 c4 c6 = ⟨1, 1⟩ := by
  rcases quota_cases 2 c4 c6 with ⟨h, hq⟩ | ⟨h, -, hq⟩ | ⟨-, -, hq⟩
  · have hone : c6 = 1 := by omega
    rw [hq, hone]
  · have hone : c4 = 1 := by omega
    rw [hq, hone]
  · exact hq

/-- If there are addresses of both families then two places go to one of each. -/
theorem max_two_select (h4 : ∃ c ∈ cs, isV4Candidate c = true)
    (h6 : ∃ c ∈ cs, isV6Candidate c = true) :
    (max 2).select cs = takeQuota 0 ⟨1, 1⟩ cs := by
  have hv4 : 0 < cs.countP isV4Candidate := List.countP_pos_iff.2 h4
  have hv6 : 0 < cs.countP isV6Candidate := List.countP_pos_iff.2 h6
  rcases Nat.lt_or_ge 2 cs.length with hlong | hshort
  · rw [max_select_of_lt hlong, quota_two hv4 hv6]
  · -- Both candidates are selected, and the walk takes two of them.
    have hlength : (takeQuota 0 ⟨1, 1⟩ cs).length = 2 := by
      rw [length_takeQuota, sharesOf_takeQuota]
      simp only
      omega
    have hall : (max 2).select cs = List.range' 0 cs.length := by
      rw [← List.range_eq_range']
      exact if_pos hshort
    rw [hall]
    apply Eq.symm
    apply (takeQuota_sublist 0 _ cs).eq_of_length_le
    rw [List.length_range', hlength]
    exact hshort

/-! ## Agreement -/

/-- **Agreement.** Of at least two candidates, `firstV4` and `firstV6` select the
first address of their family. `default` selects what the one selects, or what the
other does if that is nothing; filtering by family and then taking the first is the
same as either; and `dualStack` selects what both do, in the order of the list,
which is what `max 2` selects if there are addresses of both families. -/
theorem pickers_agree (cs : Candidates) (h : 2 ≤ cs.length) :
    SelectsFirst isV4Candidate cs (firstV4.select cs) ∧
    SelectsFirst isV6Candidate cs (firstV6.select cs) ∧
    default.select cs =
      (if firstV4.select cs = [] then firstV6.select cs else firstV4.select cs) ∧
    (compose [allV4, first]).select cs = firstV4.select cs ∧
    (compose [allV6, first]).select cs = firstV6.select cs ∧
    IsAscendingUnion (dualStack.select cs) (firstV4.select cs) (firstV6.select cs) ∧
    ((∃ c ∈ cs, isV4Candidate c = true) → (∃ c ∈ cs, isV6Candidate c = true) →
      dualStack.select cs = (max 2).select cs) := by
  have hv4 : firstV4.select cs = firstWhere isV4Candidate cs := unlessSingle_select h
  have hv6 : firstV6.select cs = firstWhere isV6Candidate cs := unlessSingle_select h
  refine ⟨?first4, ?first6, default_select h, compose_allWhere_first h isV4Candidate,
    compose_allWhere_first h isV6Candidate, ?union, ?two⟩
  case first4 =>
    rw [hv4]
    exact selectsFirst_firstWhere isV4Candidate cs
  case first6 =>
    rw [hv6]
    exact selectsFirst_firstWhere isV6Candidate cs
  case union =>
    rw [dualStack_select h, hv4, hv6]
    exact isAscendingUnion_takeQuota cs
  case two =>
    intro h4 h6
    rw [dualStack_select h, max_two_select h4 h6]

/-- The first IPv4 address stands behind an IPv6 address, and the candidate in
front has no address. -/
theorem pickers_agree_mixed :
    let v4 : Option Ip := some (.v4 .unspecified)
    let v6 : Option Ip := some (.v6 .unspecified)
    let cs := [none, v6, v4, v6, v4]
    (2 ≤ cs.length ∧ (∃ c ∈ cs, isV4Candidate c = true) ∧ ∃ c ∈ cs, isV6Candidate c = true) ∧
      (compose [allV4, first]).select cs = [2] ∧
      IsAscendingUnion [1, 2] [2] [1] ∧ (max 2).select cs = [1, 2] := by
  intro v4 v6 cs
  have hlong : 2 ≤ cs.length := by decide
  have h4 : ∃ c ∈ cs, isV4Candidate c = true := ⟨v4, by decide, rfl⟩
  have h6 : ∃ c ∈ cs, isV6Candidate c = true := ⟨v6, by decide, rfl⟩
  have hfirst4 : firstV4.select cs = [2] := by decide
  have hfirst6 : firstV6.select cs = [1] := by decide
  have hboth : dualStack.select cs = [1, 2] := by decide
  obtain ⟨-, -, -, hcompose, -, hunion, htwo⟩ := pickers_agree cs hlong
  rw [hfirst4] at hcompose
  rw [hboth, hfirst4, hfirst6] at hunion
  have hmax := htwo h4 h6
  rw [hboth] at hmax
  exact ⟨⟨hlong, h4, h6⟩, hcompose, hunion, hmax.symm⟩

-- A single candidate of the other family stays, unless all of a family are picked.
example : firstV4.select [some (.v6 .unspecified)] = [0] ∧
    (compose [allV4, first]).select [some (.v6 .unspecified)] = [] := by
  decide

end NetDial.Filter
