import Mathlib.Data.List.Perm.Subperm
import NetDial.Proofs.Filter.Composition
import NetDial.Proofs.Filter.PolicyTree
import NetDial.Proofs.Filter.Quota

/-!
# Which indices are selected

What a filter selects is compared with all indices of the list, by a relation of
lists: it is a sublist of them if the filter keeps the order and picks nothing
twice, a permutation if it picks everything once, and a subpermutation if only
nothing is picked twice. All three pass from one stage of a composition to the
next, because they are kept when indices are looked up (`Passes`). So they hold of
a policy if they hold of its leaves.

**Results.**
* `compose_of_passes`: a relation that passes goes from the members of a
  composition to the composition.
* `sublist_of_leaf`, `perm_of_leaf`, `subperm_of_leaf`: what the leaves select.
* `policy_selects`: what a policy selects.
-/
namespace NetDial

namespace Filter

/-! ## Relations that pass from stage to stage -/

/-- The relation goes on over several stages, and over looking indices up. -/
structure Passes (R : List Nat → List Nat → Prop) : Prop where
  refl : ∀ a, R a a
  trans : ∀ {a b c}, R a b → R b c → R a c
  filterMap : ∀ (g : Nat → Option Nat) {a b}, R a b → R (a.filterMap g) (b.filterMap g)

theorem passes_sublist : Passes List.Sublist where
  refl := List.Sublist.refl
  trans := List.Sublist.trans
  filterMap := fun g => List.Sublist.filterMap g

theorem passes_perm : Passes List.Perm where
  refl := List.Perm.refl
  trans := List.Perm.trans
  filterMap := fun g => List.Perm.filterMap g

theorem passes_subperm : Passes List.Subperm where
  refl := List.Subperm.refl
  trans := List.Subperm.trans
  filterMap := by
    rintro g a b ⟨l, hperm, hsub⟩
    exact ⟨l.filterMap g, hperm.filterMap g, hsub.filterMap g⟩

variable {R : List Nat → List Nat → Prop} {cs : Candidates} {f : Filter} {fs : List Filter}

/-- What a filter selects is so related to all indices, whatever the list. -/
def Selects (R : List Nat → List Nat → Prop) (f : Filter) : Prop :=
  ∀ cs, R (f.select cs) (allIndices cs)

theorem refine_of_passes (hR : Passes R) (hf : f.Selects R) (cs : Candidates)
    (selected : List Nat) : R (refine cs selected f) selected := by
  have hseen := hf (selected.map fun i => cs[i]?.join)
  rw [allIndices, List.length_map] at hseen
  have hpick := hR.filterMap (fun j => selected[j]?) hseen
  have hall := pick_range selected
  unfold pick at hall
  rw [hall] at hpick
  exact hpick

theorem compose_of_passes (hR : Passes R) (h : ∀ f ∈ fs, f.Selects R) :
    (compose fs).Selects R := by
  intro cs
  show R (fs.foldl (refine cs) (allIndices cs)) (allIndices cs)
  generalize allIndices cs = selected
  induction fs generalizing selected with
  | nil => exact hR.refl selected
  | cons f fs ih =>
    rw [List.forall_mem_cons] at h
    exact hR.trans (ih h.2 _) (refine_of_passes hR h.1 cs selected)

/-! ## Filters that keep the order -/

theorem toList_sublist_allIndices {o : Option Nat} (h : ∀ i, o = some i → i < cs.length) :
    o.toList.Sublist (allIndices cs) := by
  cases o with
  | none => exact List.nil_sublist _
  | some i => exact List.singleton_sublist.2 (List.mem_range.2 (h i rfl))

theorem lt_of_findIdx? {p : Option Ip → Bool} {i : Nat} (h : cs.findIdx? p = some i) :
    i < cs.length := by
  obtain ⟨hi, -⟩ := List.findIdx?_eq_some_iff_getElem.1 h
  exact hi

theorem selects_unlessSingle {choose : Candidates → List Nat}
    (h : ∀ cs, (choose cs).Sublist (allIndices cs)) :
    (unlessSingle choose).Selects List.Sublist := by
  intro cs
  simp only [unlessSingle]
  split
  · exact List.Sublist.refl _
  · exact h cs

theorem firstWhere_sublist (p : Option Ip → Bool) (cs : Candidates) :
    (firstWhere p cs).Sublist (allIndices cs) :=
  toList_sublist_allIndices fun _ hi => lt_of_findIdx? hi

theorem firstOfEach_sublist (i : Nat) (seenV4 seenV6 : Bool) (cs : Candidates) :
    (firstOfEach i seenV4 seenV6 cs).Sublist (List.range' i cs.length) := by
  induction cs generalizing i seenV4 seenV6 with
  | nil => exact List.Sublist.slnil
  | cons c cs ih =>
    rw [firstOfEach, List.length_cons, List.range'_succ]
    split
    · exact List.nil_sublist _
    · split
      · exact (ih _ _ _).cons_cons i
      · split
        · exact (ih _ _ _).cons_cons i
        · exact (ih _ _ _).cons i

theorem selects_default : default.Selects List.Sublist := by
  apply selects_unlessSingle
  intro cs
  apply toList_sublist_allIndices
  intro i hi
  rcases Option.or_eq_some_iff.1 hi with h4 | ⟨-, h6⟩
  · exact lt_of_findIdx? h4
  · exact lt_of_findIdx? h6

theorem selects_first : first.Selects List.Sublist := by
  intro cs
  simp only [first]
  split
  · exact List.nil_sublist _
  · rename_i hne
    exact List.singleton_sublist.2 (List.mem_range.2 (List.length_pos_iff.2 hne))

theorem selects_dualStack : dualStack.Selects List.Sublist := by
  apply selects_unlessSingle
  intro cs
  rw [allIndices, List.range_eq_range']
  exact firstOfEach_sublist 0 false false cs

theorem selects_max (n : Nat) : (max n).Selects List.Sublist := by
  intro cs
  simp only [max]
  split
  · exact List.Sublist.refl _
  · rw [allIndices, List.range_eq_range']
    exact takeQuota_sublist 0 _ cs

end Filter

/-! ## Policies -/

namespace Policy

variable {p q : Policy} {arrange : List Nat → Arrangement} {place : List Nat}

theorem sublist_of_leaf (h : ∀ ps, q ≠ compose ps) (hreverse : q ≠ reverse)
    (hshuffle : q ≠ shuffle) : (q.filterAt arrange place).Selects List.Sublist := by
  cases q with
  | default => exact Filter.selects_default
  | dualStack => exact Filter.selects_dualStack
  | first => exact Filter.selects_first
  | firstV4 => exact Filter.selects_unlessSingle (Filter.firstWhere_sublist isV4Candidate)
  | firstV6 => exact Filter.selects_unlessSingle (Filter.firstWhere_sublist isV6Candidate)
  | allV4 => exact fun cs => List.filter_sublist
  | allV6 => exact fun cs => List.filter_sublist
  | max n => exact Filter.selects_max n
  | reverse => exact absurd rfl hreverse
  | shuffle => exact absurd rfl hshuffle
  | all => exact fun cs => List.Sublist.refl _
  | compose ps => exact absurd rfl (h ps)

/-- The policies that leave nothing out. -/
inductive KeepsAll : Policy → Prop where
  | reverse : KeepsAll .reverse
  | shuffle : KeepsAll .shuffle
  | all : KeepsAll .all

theorem perm_of_leaf (h : q.KeepsAll) : (q.filterAt arrange place).Selects List.Perm := by
  cases h with
  | reverse => exact fun cs => List.reverse_perm _
  | shuffle => exact fun cs => (arrange place).perm cs.length
  | all => exact fun cs => List.Perm.refl _

theorem subperm_of_leaf (h : ∀ ps, q ≠ compose ps) :
    (q.filterAt arrange place).Selects List.Subperm := by
  intro cs
  by_cases hreverse : q = reverse
  · subst hreverse
    exact (perm_of_leaf .reverse cs).subperm
  · by_cases hshuffle : q = shuffle
    · subst hshuffle
      exact (perm_of_leaf .shuffle cs).subperm
    · exact (sublist_of_leaf h hreverse hshuffle cs).subperm

theorem subperm_select (p : Policy) (arrange : List Nat → Arrangement) (place : List Nat) :
    (p.filterAt arrange place).Selects List.Subperm :=
  filterAt_of_leaves (fun _ => Filter.compose_of_passes Filter.passes_subperm)
    fun _ hq _ => subperm_of_leaf (leaf_of_mem_leaves hq)

/-- **Selection.** A policy selects indices of the list, none of them twice. It
selects them in order if it has neither reversals nor shuffles, and all of them if
it has nothing but these and policies that do nothing. -/
theorem policy_selects (p : Policy) (arrange : List Nat → Arrangement) (place : List Nat)
    (cs : Candidates) :
    let selected := (p.filterAt arrange place).select cs
    selected.Nodup ∧ (∀ i ∈ selected, i < cs.length) ∧
    (reverse ∉ p.leaves → shuffle ∉ p.leaves → selected.Pairwise (· < ·)) ∧
    ((∀ q ∈ p.leaves, q.KeepsAll) → selected.Perm (Filter.allIndices cs)) := by
  intro selected
  have hsubperm := subperm_select p arrange place cs
  refine ⟨?distinct, ?within, ?ordered, ?everything⟩
  case distinct =>
    obtain ⟨l, hperm, hsub⟩ := hsubperm
    exact hperm.nodup_iff.1 (List.Nodup.sublist hsub List.nodup_range)
  case within =>
    intro i hi
    exact List.mem_range.1 (hsubperm.subset hi)
  case ordered =>
    intro hreverse hshuffle
    have hsub : (p.filterAt arrange place).Selects List.Sublist := by
      apply filterAt_of_leaves fun _ => Filter.compose_of_passes Filter.passes_sublist
      intro q hq inner
      apply sublist_of_leaf (leaf_of_mem_leaves hq)
      · rintro rfl
        exact hreverse hq
      · rintro rfl
        exact hshuffle hq
    exact List.Pairwise.sublist (hsub cs) List.pairwise_lt_range
  case everything =>
    intro hkeeps
    have hperm : (p.filterAt arrange place).Selects List.Perm :=
      filterAt_of_leaves (fun _ => Filter.compose_of_passes Filter.passes_perm)
        fun q hq _ => perm_of_leaf (hkeeps q hq)
    exact hperm cs

/-- Two of four candidates in order, and all four the other way round. -/
theorem policy_selects_nested :
    let v4 : Option Ip := some (.v4 .unspecified)
    let v6 : Option Ip := some (.v6 .unspecified)
    let cs := [v6, none, v4, v6]
    let ordered := compose [max 3, compose [dualStack, all]]
    let rearranged := compose [reverse, compose [shuffle, all]]
    let arrange := fun _ => Arrangement.asIs
    ((ordered.filterAt arrange []).select cs = [0, 2] ∧ [0, 2].Pairwise (· < ·)) ∧
      (rearranged.filterAt arrange []).select cs = [3, 2, 1, 0] ∧
      [3, 2, 1, 0].Perm (Filter.allIndices cs) := by
  intro v4 v6 cs ordered rearranged arrange
  have hordered : (ordered.filterAt arrange []).select cs = [0, 2] := by decide
  have hrearranged : (rearranged.filterAt arrange []).select cs = [3, 2, 1, 0] := by decide
  obtain ⟨-, -, hpairwise, -⟩ := policy_selects ordered arrange [] cs
  obtain ⟨-, -, -, hperm⟩ := policy_selects rearranged arrange [] cs
  have hleaves : rearranged.leaves = [reverse, shuffle, all] := rfl
  have hkeeps : ∀ q ∈ rearranged.leaves, q.KeepsAll := by
    rw [hleaves]
    simp only [List.forall_mem_cons]
    exact ⟨.reverse, .shuffle, .all, by simp⟩
  rw [hordered] at hpairwise
  rw [hrearranged] at hperm
  refine ⟨⟨hordered, hpairwise ?_ ?_⟩, hrearranged, hperm hkeeps⟩
  · simp [ordered, leaves, leavesOf]
  · simp [ordered, leaves, leavesOf]

end Policy
end NetDial
