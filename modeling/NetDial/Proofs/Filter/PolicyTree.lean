import NetDial.Filter.Policy

/-!
# Policies as trees

The compositions in a policy are the inner nodes of a tree whose leaves are the
policies that are no compositions. What a composition has whenever all its
members have it, a policy has if its leaves do.

**Results.**
* `induct`: induction on policies.
* `same_eq_true_iff`: equality of policies is decided by `same`.
* `filterAt_of_leaves`: what holds of the filters of the leaves, and is kept by
  compositions, holds of the filter of the policy.
-/
namespace NetDial.Policy

/-- What holds of all policies that are no compositions, and of a composition if
it holds of its members, holds of every policy. -/
@[elab_as_elim]
theorem induct {P : Policy → Prop} (leaf : ∀ p, (∀ ps, p ≠ compose ps) → P p)
    (composed : ∀ ps, (∀ q ∈ ps, P q) → P (compose ps)) (p : Policy) : P p := by
  refine @Policy.rec P (fun ps => ∀ q ∈ ps, P q) ?_ ?_ ?_ ?_ ?_ ?_ ?_ ?_ ?_ ?_ ?_ composed ?nil
    ?cons p
  case nil => simp
  case cons =>
    intro q qs hq hqs
    exact List.forall_mem_cons.2 ⟨hq, hqs⟩
  all_goals
    intros
    exact leaf _ fun _ h => by cases h

variable {p q : Policy} {ps qs : List Policy}

/-! ## Comparing policies -/

theorem sameAll_eq_true_iff (h : ∀ p ∈ ps, ∀ q, p.same q = true ↔ p = q) :
    sameAll ps qs = true ↔ ps = qs := by
  induction ps generalizing qs with
  | nil => cases qs <;> simp [sameAll]
  | cons p ps ih =>
    rw [List.forall_mem_cons] at h
    cases qs with
    | nil => simp [sameAll]
    | cons q qs => rw [sameAll, Bool.and_eq_true, h.1, ih h.2, List.cons.injEq]

theorem same_eq_true_iff : p.same q = true ↔ p = q := by
  induction p using induct generalizing q with
  | leaf p hp =>
    cases p with
    | compose ps => exact absurd rfl (hp ps)
    | _ => cases q <;> simp [same]
  | composed ps ih =>
    cases q with
    | compose qs => rw [same, sameAll_eq_true_iff ih, compose.injEq]
    | _ => simp [same]

instance : DecidableEq Policy :=
  fun _ _ => decidable_of_iff _ same_eq_true_iff

/-! ## Leaves -/

mutual
/-- The policies in a policy that are no compositions, from left to right. -/
def leaves : Policy → List Policy
  | compose ps => leavesOf ps
  | p => [p]

/-- The leaves of the members of a composition. -/
def leavesOf : List Policy → List Policy
  | [] => []
  | p :: ps => p.leaves ++ leavesOf ps
end

theorem leaves_of_leaf (h : ∀ ps, p ≠ compose ps) : p.leaves = [p] := by
  cases p with
  | compose ps => exact absurd rfl (h ps)
  | _ => rfl

theorem mem_leavesOf : q ∈ leavesOf ps ↔ ∃ p ∈ ps, q ∈ p.leaves := by
  induction ps with
  | nil => simp [leavesOf]
  | cons p ps ih => simp [leavesOf, ih]

theorem mem_leaves_of_mem (h : p ∈ ps) (hq : q ∈ p.leaves) : q ∈ (compose ps).leaves := by
  rw [leaves]
  exact mem_leavesOf.2 ⟨p, h, hq⟩

/-- No leaf is a composition. -/
theorem leaf_of_mem_leaves : q ∈ p.leaves → ∀ qs, q ≠ compose qs := by
  induction p using induct with
  | leaf p hp =>
    intro h
    rw [leaves_of_leaf hp, List.mem_singleton] at h
    rw [h]
    exact hp
  | composed ps ih =>
    intro h
    rw [leaves] at h
    obtain ⟨p, hp, hq⟩ := mem_leavesOf.1 h
    exact ih p hp hq

/-! ## Filters of policies -/

variable {arrange : List Nat → Arrangement} {place : List Nat}

theorem mem_filtersAt {f : Filter} {i : Nat} (h : f ∈ filtersAt arrange place i ps) :
    ∃ q ∈ ps, ∃ inner, f = q.filterAt arrange inner := by
  induction ps generalizing i with
  | nil => simp [filtersAt] at h
  | cons p ps ih =>
    rw [filtersAt, List.mem_cons] at h
    rcases h with rfl | h
    · exact ⟨p, List.mem_cons_self, _, rfl⟩
    · obtain ⟨q, hq, inner, rfl⟩ := ih h
      exact ⟨q, List.mem_cons_of_mem p hq, inner, rfl⟩

/-- A property that compositions keep goes from the leaves to the policy. -/
theorem filterAt_of_leaves {Has : Filter → Prop}
    (hcompose : ∀ fs, (∀ f ∈ fs, Has f) → Has (.compose fs))
    (hleaves : ∀ q ∈ p.leaves, ∀ place, Has (q.filterAt arrange place)) :
    Has (p.filterAt arrange place) := by
  induction p using induct generalizing place with
  | leaf p hp => exact hleaves p (by rw [leaves_of_leaf hp]; exact List.mem_singleton_self p) place
  | composed ps ih =>
    rw [filterAt]
    apply hcompose
    intro f hf
    obtain ⟨q, hq, inner, rfl⟩ := mem_filtersAt hf
    exact ih q hq fun r hr => hleaves r (mem_leaves_of_mem hq hr)

end NetDial.Policy
