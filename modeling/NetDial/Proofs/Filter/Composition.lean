import NetDial.Filter.Policy
import NetDial.Proofs.Address.AddrList

/-!
# Filters one after the other

A composition works on indices: each filter sees what is selected so far and
answers with places in that, which are taken back to the indices of the list at
the start. A filter may answer with places that do not exist, or with one place
several times. Yet every index that is selected exists (`mem_foldl_refine`), so
what the next filter sees is the list that the one before would have left, and
the composition does what its filters do one after the other.

A list of filters that are compositions themselves may be written out: only the
filters at the leaves count, and their order.

**Results.**
* `pick_pick`: picking from what was picked is picking from the start.
* `apply_compose`: a composition is its filters in turn, on any kind of list.
* `composeChecked?_eq`: a composition never looks up an index that does not exist.
* `Assembly.select_row`, `Policy.filter_assemblyAt`: nested compositions are
  their leaves, and nested policies are nested compositions.
* `compose_in_turn`: all of this.
-/
namespace NetDial

namespace Filter

variable {α : Type} {xs : List α} {is js selected : List Nat} {cs : Candidates} {f : Filter}
  {ip? : α → Option Ip}

/-! ## Picking by index -/

/-- The elements at these indices; indices without element are skipped. -/
def pick (xs : List α) (is : List Nat) : List α :=
  is.filterMap fun i => xs[i]?

theorem pick_cons_of_lt {i : Nat} (h : i < xs.length) (is : List Nat) :
    pick xs (i :: is) = xs[i] :: pick xs is := by
  unfold pick
  rw [List.filterMap_cons_some (List.getElem?_eq_getElem h)]

theorem pick_range (xs : List α) : pick xs (List.range xs.length) = xs := by
  unfold pick
  induction xs with
  | nil => rfl
  | cons x xs ih =>
    rw [List.length_cons, List.range_succ_eq_map, List.filterMap_cons, List.filterMap_map]
    exact congrArg (x :: ·) ih

/-- Indices that exist are picked from all indices as they are. -/
theorem pick_allIndices (h : ∀ i ∈ is, i < cs.length) : pick (allIndices cs) is = is := by
  induction is with
  | nil => rfl
  | cons i is ih =>
    rw [List.forall_mem_cons] at h
    have hi : i < (allIndices cs).length := by
      rw [allIndices, List.length_range]
      exact h.1
    rw [pick_cons_of_lt hi, ih h.2]
    simp [allIndices]

theorem mem_of_mem_pick {x : α} (h : x ∈ pick xs is) : x ∈ xs := by
  obtain ⟨i, -, hi⟩ := List.mem_filterMap.1 h
  exact List.mem_of_getElem? hi

theorem map_pick {β : Type} (g : α → β) (xs : List α) (is : List Nat) :
    (pick xs is).map g = pick (xs.map g) is := by
  simp [pick, List.map_filterMap]

theorem getElem?_pick (h : ∀ i ∈ is, i < xs.length) (j : Nat) :
    (pick xs is)[j]? = is[j]?.bind fun i => xs[i]? := by
  induction is generalizing j with
  | nil => rfl
  | cons i is ih =>
    rw [List.forall_mem_cons] at h
    rw [pick_cons_of_lt h.1]
    cases j with
    | zero => simp [h.1]
    | succ j => simpa using ih h.2 j

/-- Picking from what was picked is picking from the start, as long as nothing was
skipped the first time. -/
theorem pick_pick (h : ∀ i ∈ is, i < xs.length) (js : List Nat) :
    pick (pick xs is) js = pick xs (pick is js) := by
  have hplace : (fun j => (pick xs is)[j]?) = fun j => is[j]?.bind fun i => xs[i]? :=
    funext (getElem?_pick h)
  show js.filterMap (fun j => (pick xs is)[j]?) = _
  rw [hplace, ← List.filterMap_filterMap]
  rfl

/-! ## What the next filter sees -/

/-- Looks up every index; fails if one of them does not exist. -/
def view? (cs : Candidates) (selected : List Nat) : Option Candidates :=
  selected.mapM fun i => cs[i]?

theorem map_join_eq_pick (h : ∀ i ∈ selected, i < cs.length) :
    (selected.map fun i => cs[i]?.join) = pick cs selected := by
  induction selected with
  | nil => rfl
  | cons i selected ih =>
    rw [List.forall_mem_cons] at h
    rw [pick_cons_of_lt h.1, List.map_cons, ih h.2, List.getElem?_eq_getElem h.1]
    rfl

theorem view?_eq (h : ∀ i ∈ selected, i < cs.length) :
    view? cs selected = some (selected.map fun i => cs[i]?.join) := by
  unfold view?
  induction selected with
  | nil => rfl
  | cons i selected ih =>
    rw [List.forall_mem_cons] at h
    rw [List.mapM_cons, ih h.2, List.getElem?_eq_getElem h.1]
    simp [h.1]

/-- Whatever the filters answer, they select among what was selected. -/
theorem mem_foldl_refine {fs : List Filter} {i : Nat}
    (h : i ∈ fs.foldl (refine cs) selected) : i ∈ selected := by
  induction fs generalizing selected with
  | nil => exact h
  | cons f fs ih => exact mem_of_mem_pick (ih h)

theorem lt_of_mem_foldl_refine {fs : List Filter} {i : Nat}
    (h : i ∈ fs.foldl (refine cs) (allIndices cs)) : i < cs.length :=
  List.mem_range.1 (mem_foldl_refine h)

/-! ## A filter on any kind of list -/

/-- What a filter picks of things with addresses. -/
def apply (f : Filter) (ip? : α → Option Ip) (xs : List α) : List α :=
  pick xs (f.select (xs.map ip?))

theorem filterAddrs_eq (f : Filter) (l : AddrList) :
    f.filterAddrs l = ⟨l.kind, f.apply NetAddr.ip? l.addrs⟩ :=
  l.select_eq _

/-- A stage of a composition is a filter on the indices that are selected. -/
theorem refine_eq (cs : Candidates) :
    refine cs = fun selected f => f.apply (fun i => cs[i]?.join) selected :=
  rfl

/-- The first stage of a composition sees the list as it is. -/
theorem refine_allIndices (cs : Candidates) (f : Filter) :
    refine cs (allIndices cs) f = pick (allIndices cs) (f.select cs) := by
  have hlt : ∀ i ∈ allIndices cs, i < cs.length := fun i hi => List.mem_range.1 hi
  have hseen : (allIndices cs).map (fun i => cs[i]?.join) = cs := by
    rw [map_join_eq_pick hlt]
    exact pick_range cs
  unfold refine
  rw [hseen]
  rfl

/-- A filter on what was picked is a filter on the indices that it was picked
by. -/
theorem apply_pick (h : ∀ i ∈ selected, i < xs.length) (f : Filter) (ip? : α → Option Ip) :
    f.apply ip? (pick xs selected) = pick xs (refine (xs.map ip?) selected f) := by
  have hseen : (pick xs selected).map ip? = selected.map fun i => (xs.map ip?)[i]?.join := by
    rw [map_pick, map_join_eq_pick fun i hi => by rw [List.length_map]; exact h i hi]
  unfold apply
  rw [hseen, pick_pick h]
  rfl

theorem foldl_apply_pick (h : ∀ i ∈ selected, i < xs.length) (fs : List Filter)
    (ip? : α → Option Ip) :
    fs.foldl (fun ys f => f.apply ip? ys) (pick xs selected) =
      pick xs (fs.foldl (refine (xs.map ip?)) selected) := by
  induction fs generalizing selected with
  | nil => rfl
  | cons f fs ih =>
    rw [List.foldl_cons, List.foldl_cons, apply_pick h]
    exact ih fun i hi => h i (mem_of_mem_pick hi)

/-- **Composition.** A composition picks what its filters pick one after the
other. -/
theorem apply_compose (fs : List Filter) (ip? : α → Option Ip) (xs : List α) :
    (compose fs).apply ip? xs = fs.foldl (fun ys f => f.apply ip? ys) xs := by
  have hall : ∀ i ∈ List.range xs.length, i < xs.length := fun i hi => List.mem_range.1 hi
  have hturn := foldl_apply_pick hall fs ip?
  rw [pick_range] at hturn
  rw [hturn]
  simp only [apply, compose, allIndices, List.length_map]

theorem filterAddrs_compose (fs : List Filter) (l : AddrList) :
    (compose fs).filterAddrs l = fs.foldl (fun l f => f.filterAddrs l) l := by
  rw [filterAddrs_eq, apply_compose]
  induction fs generalizing l with
  | nil => rfl
  | cons f fs ih =>
    rw [List.foldl_cons, List.foldl_cons, ← ih, filterAddrs_eq]

theorem filterIps_compose (fs : List Filter) (ips : List Ip) :
    (compose fs).filterIps ips = fs.foldl (fun ips f => f.filterIps ips) ips :=
  apply_compose fs some ips

/-! ## Checked look-ups -/

/-- A composition that fails at an index that does not exist. -/
def composeChecked? (fs : List Filter) (cs : Candidates) : Option (List Nat) :=
  fs.foldlM (fun selected f => (view? cs selected).map fun seen => pick selected (f.select seen))
    (allIndices cs)

theorem foldlM_view?_eq (h : ∀ i ∈ selected, i < cs.length) (fs : List Filter) :
    fs.foldlM
        (fun selected f => (view? cs selected).map fun seen => pick selected (f.select seen))
        selected =
      some (fs.foldl (refine cs) selected) := by
  induction fs generalizing selected with
  | nil => rfl
  | cons f fs ih =>
    have hnext : ∀ i ∈ refine cs selected f, i < cs.length :=
      fun i hi => h i (mem_of_mem_pick hi)
    rw [List.foldlM_cons, view?_eq h, Option.map_some]
    exact ih hnext

/-- No look-up of a composition fails. -/
theorem composeChecked?_eq (fs : List Filter) (cs : Candidates) :
    composeChecked? fs cs = some ((compose fs).select cs) :=
  foldlM_view?_eq (fun _ hi => List.mem_range.1 hi) fs

-- Places that do not exist are dropped at each stage; places that come twice stay.
example : composeChecked? [⟨fun _ => [2, 7, 0, 0]⟩, ⟨fun _ => [2, 0, 5, 1]⟩] [none, none, none] =
    some [0, 2, 0] := rfl

/-! ## Nested compositions -/

/-- A composition of compositions to any depth. -/
inductive Assembly where
  | single (f : Filter)
  | row (members : List Assembly)

namespace Assembly

mutual
/-- The filter that is assembled. -/
def filter : Assembly → Filter
  | single f => f
  | row members => compose (filters members)

/-- The filters of the members. -/
def filters : List Assembly → List Filter
  | [] => []
  | t :: members => t.filter :: filters members
end

mutual
/-- The filters that are no compositions, from left to right. -/
def leaves : Assembly → List Filter
  | single f => [f]
  | row members => leavesOf members

/-- The leaves of the members. -/
def leavesOf : List Assembly → List Filter
  | [] => []
  | t :: members => t.leaves ++ leavesOf members
end

mutual
/-- An assembly picks what its leaves pick one after the other. -/
theorem apply_leaves (ip? : α → Option Ip) (xs : List α) :
    (t : Assembly) → t.filter.apply ip? xs = t.leaves.foldl (fun ys f => f.apply ip? ys) xs
  | single f => rfl
  | row members => by
    rw [filter, apply_compose, leaves]
    exact foldl_leavesOf ip? xs members

theorem foldl_leavesOf (ip? : α → Option Ip) (xs : List α) :
    (members : List Assembly) →
      (filters members).foldl (fun ys f => f.apply ip? ys) xs =
        (leavesOf members).foldl (fun ys f => f.apply ip? ys) xs
  | [] => rfl
  | t :: members => by
    rw [filters, leavesOf, List.foldl_cons, List.foldl_append, apply_leaves ip? xs t]
    exact foldl_leavesOf ip? _ members
end

/-- A nested composition selects what the composition of its leaves selects. -/
theorem select_row (members : List Assembly) (cs : Candidates) :
    (row members).filter.select cs = (compose (leavesOf members)).select cs := by
  show (filters members).foldl (refine cs) _ = (leavesOf members).foldl (refine cs) _
  rw [refine_eq]
  exact foldl_leavesOf _ _ members

end Assembly
end Filter

namespace Policy

mutual
/-- The policy as an assembly, shuffles being arranged by their place in it. -/
def assemblyAt (arrange : List Nat → Arrangement) (place : List Nat) : Policy → Filter.Assembly
  | compose ps => .row (assembliesAt arrange place 0 ps)
  | p => .single (p.filterAt arrange place)

/-- The policies of a composition as assemblies, at its places from `i` on. -/
def assembliesAt (arrange : List Nat → Arrangement) (place : List Nat) (i : Nat) :
    List Policy → List Filter.Assembly
  | [] => []
  | p :: ps => assemblyAt arrange (place ++ [i]) p :: assembliesAt arrange place (i + 1) ps
end

mutual
theorem filter_assemblyAt (arrange : List Nat → Arrangement) (place : List Nat) :
    (p : Policy) → (p.assemblyAt arrange place).filter = p.filterAt arrange place
  | compose ps => by
    rw [assemblyAt, Filter.Assembly.filter, filters_assembliesAt, filterAt]
  | default | dualStack | first | firstV4 | firstV6 | allV4 | allV6 | max _ | reverse | shuffle
  | all => rfl

theorem filters_assembliesAt (arrange : List Nat → Arrangement) (place : List Nat) (i : Nat) :
    (ps : List Policy) →
      Filter.Assembly.filters (assembliesAt arrange place i ps) = filtersAt arrange place i ps
  | [] => rfl
  | p :: ps => by
    rw [assembliesAt, Filter.Assembly.filters, filter_assemblyAt, filters_assembliesAt, filtersAt]
end

end Policy

namespace Filter

/-! ## The law of composition -/

/-- The filter does what these filters do one after the other. -/
structure InTurn (f : Filter) (fs : List Filter) : Prop where
  addrs : ∀ l, f.filterAddrs l = fs.foldl (fun l f => f.filterAddrs l) l
  ips : ∀ ips, f.filterIps ips = fs.foldl (fun ips f => f.filterIps ips) ips

theorem inTurn_compose (fs : List Filter) : InTurn (compose fs) fs :=
  ⟨filterAddrs_compose fs, filterIps_compose fs⟩

/-- **Composition in turn.** Compositions, tuples and composed policies do what
their filters do one after the other, the empty composition does nothing, and
nested compositions are the composition of their leaves. No filter makes a
composition look up or select an index that does not exist. -/
theorem compose_in_turn :
    (∀ fs : List Filter, InTurn (compose fs) fs) ∧
    (∀ t : Tuple, InTurn t.filter t.members) ∧
    (∀ (arrange : List Nat → Arrangement) (place : List Nat) (ps : List Policy),
      InTurn ((Policy.compose ps).filterAt arrange place)
        (Policy.filtersAt arrange place 0 ps)) ∧
    (∀ l : AddrList, (compose []).filterAddrs l = l) ∧
    (∀ ips : List Ip, (compose []).filterIps ips = ips) ∧
    (∀ cs : Candidates, (compose []).select cs = allIndices cs) ∧
    (∀ (members : List Assembly) (cs : Candidates),
      (Assembly.row members).filter.select cs =
        (compose (Assembly.leavesOf members)).select cs) ∧
    (∀ (arrange : List Nat → Arrangement) (place : List Nat) (ps : List Policy)
      (cs : Candidates),
      ((Policy.compose ps).filterAt arrange place).select cs =
        (compose ((Policy.compose ps).assemblyAt arrange place).leaves).select cs) ∧
    (∀ (fs : List Filter) (cs : Candidates),
      composeChecked? fs cs = some ((compose fs).select cs)) ∧
    (∀ (fs : List Filter) (cs : Candidates), ∀ i ∈ (compose fs).select cs, i < cs.length) := by
  refine ⟨inTurn_compose, fun t => inTurn_compose t.members, ?policy, ?emptyAddrs,
    filterIps_compose [], fun _ => rfl, Assembly.select_row, ?nestedPolicy,
    composeChecked?_eq, fun _ _ _ => lt_of_mem_foldl_refine⟩
  case policy =>
    intro arrange place ps
    rw [Policy.filterAt]
    exact inTurn_compose _
  case emptyAddrs => exact filterAddrs_compose []
  case nestedPolicy =>
    intro arrange place ps cs
    rw [← Policy.filter_assemblyAt, Policy.assemblyAt]
    exact Assembly.select_row _ cs

end Filter
end NetDial
