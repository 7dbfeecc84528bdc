import NetDial.Proofs.Filter.Selection

/-!
# What is left

A filter may leave nothing of the addresses of a host, and then the host cannot be
dialed. Picking by family does so on a host of the other family, and `max 0` on
every host. All other policies leave something of every list of addresses
(`KeepsSome`), and so do their compositions. A list of at most one candidate is not
even changed (`SparesSingle`), unless all addresses of a family are picked or none.

**Results.**
* `Filter.compose_keepsSome`, `Filter.compose_sparesSingle`: compositions keep
  both properties.
* `Policy.keepsSome_of_leaves`, `Policy.sparesSingle_of_leaves`: which policies
  have them.
-/
namespace NetDial

namespace Filter

variable {f : Filter} {fs : List Filter} {cs : Candidates} {selected : List Nat}

/-- The filter leaves something of a list of addresses, unless the list is
empty. -/
def KeepsSome (f : Filter) : Prop :=
  ∀ cs : Candidates, cs ≠ [] → (∀ c ∈ cs, c ≠ none) → ∃ i ∈ f.select cs, i < cs.length

/-- The filter does not change a list of at most one candidate. -/
def SparesSingle (f : Filter) : Prop :=
  ∀ cs : Candidates, cs.length ≤ 1 → f.select cs = allIndices cs

/-! ## Compositions -/

/-- Every stage of a composition leaves something for the next. -/
theorem refine_keepsSome (hf : f.KeepsSome) (hips : ∀ c ∈ cs, c ≠ none)
    (hne : selected ≠ []) (hlt : ∀ i ∈ selected, i < cs.length) :
    refine cs selected f ≠ [] := by
  have hseen := map_join_eq_pick hlt
  have hseenNe : (selected.map fun i => cs[i]?.join) ≠ [] := by simp [hne]
  have hseenIps : ∀ c ∈ selected.map fun i => cs[i]?.join, c ≠ none := by
    rw [hseen]
    intro c hc
    exact hips c (mem_of_mem_pick hc)
  obtain ⟨j, hj, hjlt⟩ := hf _ hseenNe hseenIps
  rw [List.length_map] at hjlt
  have hmem : selected[j] ∈ refine cs selected f :=
    List.mem_filterMap.2 ⟨j, hj, List.getElem?_eq_getElem hjlt⟩
  exact List.ne_nil_of_mem hmem

theorem compose_keepsSome (h : ∀ f ∈ fs, f.KeepsSome) : (compose fs).KeepsSome := by
  intro cs hne hips
  have hleft : fs.foldl (refine cs) (allIndices cs) ≠ [] := by
    have hstart : allIndices cs ≠ [] := by simpa [allIndices] using hne
    have hlt : ∀ i ∈ allIndices cs, i < cs.length := fun i hi => List.mem_range.1 hi
    generalize allIndices cs = selected at hstart hlt
    induction fs generalizing selected with
    | nil => exact hstart
    | cons f fs ih =>
      rw [List.forall_mem_cons] at h
      apply ih h.2
      · exact refine_keepsSome h.1 hips hstart hlt
      · intro i hi
        exact hlt i (mem_of_mem_pick hi)
  obtain ⟨i, hi⟩ := List.exists_mem_of_ne_nil _ hleft
  exact ⟨i, hi, lt_of_mem_foldl_refine hi⟩

/-- A filter that selects everything of a list is a stage that does nothing. -/
theorem refine_of_select_all (h : f.select cs = allIndices cs) :
    refine cs (allIndices cs) f = allIndices cs := by
  rw [refine_allIndices, h]
  exact pick_allIndices fun i hi => List.mem_range.1 hi

theorem compose_sparesSingle (h : ∀ f ∈ fs, f.SparesSingle) : (compose fs).SparesSingle := by
  intro cs hcs
  show fs.foldl (refine cs) (allIndices cs) = allIndices cs
  induction fs with
  | nil => rfl
  | cons f fs ih =>
    rw [List.forall_mem_cons] at h
    rw [List.foldl_cons, refine_of_select_all (h.1 cs hcs)]
    exact ih h.2

/-! ## Single filters -/

/-- A filter that selects something selects something that exists. -/
theorem keepsSome_of_ne_nil (hsub : f.Selects List.Subperm)
    (h : ∀ cs : Candidates, cs ≠ [] → (∀ c ∈ cs, c ≠ none) → f.select cs ≠ []) :
    f.KeepsSome := by
  intro cs hne hips
  obtain ⟨i, hi⟩ := List.exists_mem_of_ne_nil _ (h cs hne hips)
  exact ⟨i, hi, List.mem_range.1 ((hsub cs).subset hi)⟩

theorem unlessSingle_ne_nil {choose : Candidates → List Nat}
    (h : ∀ (ip : Ip) (cs : Candidates), choose (some ip :: cs) ≠ []) (cs : Candidates)
    (hne : cs ≠ []) (hips : ∀ c ∈ cs, c ≠ none) : (unlessSingle choose).select cs ≠ [] := by
  simp only [unlessSingle]
  split
  · simpa [allIndices] using hne
  · obtain ⟨c, rest, rfl⟩ := List.exists_cons_of_ne_nil hne
    cases c with
    | none => exact absurd rfl (hips none List.mem_cons_self)
    | some ip => exact h ip rest

theorem default_ne_nil : ∀ cs : Candidates, cs ≠ [] → (∀ c ∈ cs, c ≠ none) →
    default.select cs ≠ [] := by
  apply unlessSingle_ne_nil
  intro ip cs
  cases ip with
  | v4 x => simp [List.findIdx?_cons, isV4Candidate, Ip.isV4]
  | v6 x =>
    have h6 : isV6Candidate (some (.v6 x)) = true := rfl
    rw [List.findIdx?_cons (p := isV6Candidate), h6]
    cases (some (Ip.v6 x) :: cs).findIdx? isV4Candidate <;> simp

theorem dualStack_ne_nil : ∀ cs : Candidates, cs ≠ [] → (∀ c ∈ cs, c ≠ none) →
    dualStack.select cs ≠ [] := by
  apply unlessSingle_ne_nil
  intro ip cs
  cases ip with
  | v4 x => simp [firstOfEach, isV4Candidate, Ip.isV4]
  | v6 x => simp [firstOfEach, isV4Candidate, isV6Candidate, Ip.isV4, Ip.isV6]

theorem max_ne_nil {n : Nat} (hn : 1 ≤ n) (cs : Candidates) (hne : cs ≠ [])
    (hips : ∀ c ∈ cs, c ≠ none) : (max n).select cs ≠ [] := by
  rcases Nat.lt_or_ge n cs.length with hlt | hge
  · have hlength := (max_select_full hlt hips).1
    apply List.ne_nil_of_length_pos
    omega
  · have hall : (max n).select cs = allIndices cs := if_pos hge
    rw [hall]
    simpa [allIndices] using hne

theorem perm_ne_nil (h : f.Selects List.Perm) (cs : Candidates) (hne : cs ≠ []) :
    f.select cs ≠ [] := by
  intro hnil
  have hperm := h cs
  rw [hnil] at hperm
  have hlength : 0 = cs.length := by simpa [allIndices] using hperm.length_eq
  exact hne (List.length_eq_zero_iff.1 hlength.symm)

end Filter

namespace Policy

variable {p q : Policy} {arrange : List Nat → Arrangement} {place : List Nat}

/-! ## Policies that leave something -/

/-- The policies that leave something of every list of addresses. -/
inductive KeepsSome : Policy → Prop where
  | default : KeepsSome .default
  | dualStack : KeepsSome .dualStack
  | first : KeepsSome .first
  | max (n : Nat) (h : 1 ≤ n) : KeepsSome (.max n)
  | reverse : KeepsSome .reverse
  | shuffle : KeepsSome .shuffle
  | all : KeepsSome .all

theorem keepsSome_of_leaf (h : q.KeepsSome) : (q.filterAt arrange place).KeepsSome := by
  apply Filter.keepsSome_of_ne_nil (subperm_select q arrange place)
  intro cs hne hips
  cases h with
  | default => exact Filter.default_ne_nil cs hne hips
  | dualStack => exact Filter.dualStack_ne_nil cs hne hips
  | first => simp [filterAt, Filter.first, hne]
  | max n h => exact Filter.max_ne_nil h cs hne hips
  | reverse => exact Filter.perm_ne_nil (perm_of_leaf .reverse) cs hne
  | shuffle => exact Filter.perm_ne_nil (perm_of_leaf .shuffle) cs hne
  | all => exact Filter.perm_ne_nil (perm_of_leaf .all) cs hne

theorem keepsSome_of_leaves (h : ∀ q ∈ p.leaves, q.KeepsSome) :
    (p.filterAt arrange place).KeepsSome :=
  filterAt_of_leaves (fun _ => Filter.compose_keepsSome) fun q hq _ => keepsSome_of_leaf (h q hq)

/-! ## Policies that do not change short lists -/

theorem sparesSingle_of_leaf (hleaf : ∀ ps, q ≠ compose ps) (h4 : q ≠ allV4) (h6 : q ≠ allV6)
    (hmax : q ≠ max 0) : (q.filterAt arrange place).SparesSingle := by
  intro cs hcs
  cases q with
  | default | dualStack | firstV4 | firstV6 => exact if_pos hcs
  | first =>
    match cs, hcs with
    | [], _ => rfl
    | [c], _ => rfl
  | allV4 => exact absurd rfl h4
  | allV6 => exact absurd rfl h6
  | max n =>
    have hn : n ≠ 0 := fun hn => hmax (congrArg max hn)
    exact if_pos (by omega)
  | reverse =>
    match cs, hcs with
    | [], _ => rfl
    | [c], _ => rfl
  | shuffle =>
    have hperm := (arrange place).perm cs.length
    match cs, hcs with
    | [], _ => exact List.Perm.eq_nil hperm
    | [c], _ => exact List.perm_singleton.1 hperm
  | all => rfl
  | compose ps => exact absurd rfl (hleaf ps)

theorem sparesSingle_of_leaves (h : ∀ q ∈ p.leaves, q ≠ allV4 ∧ q ≠ allV6 ∧ q ≠ max 0) :
    (p.filterAt arrange place).SparesSingle := by
  apply filterAt_of_leaves fun _ => Filter.compose_sparesSingle
  intro q hq inner
  obtain ⟨h4, h6, hmax⟩ := h q hq
  exact sparesSingle_of_leaf (leaf_of_mem_leaves hq) h4 h6 hmax

end Policy
end NetDial
