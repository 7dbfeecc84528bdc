import NetDial.Address.AddrList

/-!
# Building address lists and picking from them

**Results.**
* `push_of_kind`, `push_of_ne`: an address of another kind is refused.
* `ofAddrs_eq_ok`, `ofAddrs_eq_error`: the first address of another kind refuses
  them all.
* `appendFrom_addrs_eq_iff`: when nothing is appended.
* `select_addrs`: what is selected are the addresses at the indices that exist,
  in the order of the indices.
* `select_eq_nil_iff`: nothing is selected exactly if no index exists.
-/
namespace NetDial.AddrList

/-! ## Adding addresses -/

theorem push_of_kind {l : AddrList} {a : NetAddr} (h : a.kind = l.kind) :
    l.push a = .ok ⟨l.kind, l.addrs ++ [a]⟩ :=
  if_pos h

theorem push_of_ne {l : AddrList} {a : NetAddr} (h : a.kind ≠ l.kind) :
    l.push a = .error ⟨l.kind, a.kind⟩ :=
  if_neg h

/-- Pushing addresses of the list's kind one after another appends them all. -/
theorem foldlM_push {l : AddrList} {addrs : List NetAddr} (h : ∀ a ∈ addrs, a.kind = l.kind) :
    addrs.foldlM push l = .ok ⟨l.kind, l.addrs ++ addrs⟩ := by
  induction addrs generalizing l with
  | nil => simp [pure, Except.pure]
  | cons a addrs ih =>
    rw [List.forall_mem_cons] at h
    have hrest : ∀ b ∈ addrs, b.kind = AddrList.kind ⟨l.kind, l.addrs ++ [a]⟩ := h.2
    rw [List.foldlM_cons, push_of_kind h.1]
    show addrs.foldlM push ⟨l.kind, l.addrs ++ [a]⟩ = _
    rw [ih hrest, List.append_assoc, List.singleton_append]

theorem ofAddrs_eq_ok {kind : AddrKind} {addrs : List NetAddr} (h : ∀ a ∈ addrs, a.kind = kind) :
    ofAddrs kind addrs = .ok ⟨kind, addrs⟩ :=
  foldlM_push (l := empty kind) h

theorem ofAddrs_eq_error {kind : AddrKind} {front back : List NetAddr} {a : NetAddr}
    (hfront : ∀ b ∈ front, b.kind = kind) (ha : a.kind ≠ kind) :
    ofAddrs kind (front ++ a :: back) = .error ⟨kind, a.kind⟩ := by
  have hpush : push ⟨kind, [] ++ front⟩ a = .error ⟨kind, a.kind⟩ := push_of_ne ha
  rw [ofAddrs, List.foldlM_append, foldlM_push (l := empty kind) hfront]
  show (a :: back).foldlM push ⟨kind, [] ++ front⟩ = _
  rw [List.foldlM_cons, hpush]
  rfl

/-- Either all addresses have the kind, or there is a first one that has not. -/
theorem ofAddrs_cases (kind : AddrKind) (addrs : List NetAddr) :
    ((∀ a ∈ addrs, a.kind = kind) ∧ ofAddrs kind addrs = .ok ⟨kind, addrs⟩) ∨
      ∃ front a back, addrs = front ++ a :: back ∧ (∀ b ∈ front, b.kind = kind) ∧
        a.kind ≠ kind ∧ ofAddrs kind addrs = .error ⟨kind, a.kind⟩ := by
  cases hfind : addrs.find? (fun a => a.kind ≠ kind) with
  | none =>
    have hall : ∀ a ∈ addrs, a.kind = kind := by simpa using hfind
    exact .inl ⟨hall, ofAddrs_eq_ok hall⟩
  | some a =>
    obtain ⟨hne, front, back, rfl, hfront⟩ := List.find?_eq_some_iff_append.1 hfind
    have hkind : ∀ b ∈ front, b.kind = kind := by simpa using hfront
    have ha : a.kind ≠ kind := by simpa using hne
    exact .inr ⟨front, a, back, rfl, hkind, ha, ofAddrs_eq_error hkind ha⟩

/-! ## Appending from a list and picking -/

theorem appendFrom_of_kind {l src : AddrList} (h : src.kind = l.kind) (i : Nat) :
    l.appendFrom src i = { l with addrs := l.addrs ++ src.addrs[i]?.toList } := by
  unfold appendFrom addr?
  rw [if_pos h]
  cases src.addrs[i]? with
  | none => simp
  | some a => rfl

theorem appendFrom_of_kind_ne {l src : AddrList} (h : src.kind ≠ l.kind) (i : Nat) :
    l.appendFrom src i = l :=
  if_neg h

theorem appendFrom_addrs_eq_iff {l src : AddrList} {i : Nat} :
    (l.appendFrom src i).addrs = l.addrs ↔ src.addrs.length ≤ i ∨ src.kind ≠ l.kind := by
  by_cases h : src.kind = l.kind
  · rw [appendFrom_of_kind h, List.append_right_eq_self, Option.toList_eq_nil_iff,
      List.getElem?_eq_none_iff]
    exact (or_iff_left (not_not_intro h)).symm
  · rw [appendFrom_of_kind_ne h]
    exact iff_of_true rfl (.inr h)

/-- Appending one index after another appends what the indices stand for. -/
theorem foldl_appendFrom {l src : AddrList} (h : src.kind = l.kind) (indices : List Nat) :
    indices.foldl (fun acc i => acc.appendFrom src i) l =
      { l with addrs := l.addrs ++ indices.filterMap fun i => src.addrs[i]? } := by
  induction indices generalizing l with
  | nil => simp
  | cons i indices ih =>
    have hkind : src.kind = AddrList.kind ⟨l.kind, l.addrs ++ src.addrs[i]?.toList⟩ := h
    rw [List.foldl_cons, appendFrom_of_kind h, ih hkind, List.filterMap_cons]
    cases src.addrs[i]? with
    | none => simp
    | some a => simp

theorem select_eq (l : AddrList) (indices : List Nat) :
    l.select indices = ⟨l.kind, indices.filterMap fun i => l.addrs[i]?⟩ := by
  have h : l.kind = l.newLike.kind := rfl
  unfold select
  rw [foldl_appendFrom h]
  rfl

theorem select_addrs (l : AddrList) (indices : List Nat) :
    (l.select indices).addrs = indices.filterMap fun i => l.addrs[i]? := by
  rw [select_eq]

theorem select_eq_nil_iff (l : AddrList) (indices : List Nat) :
    (l.select indices).addrs = [] ↔ ∀ i ∈ indices, l.addrs.length ≤ i := by
  rw [select_addrs, List.filterMap_eq_nil_iff]
  simp only [List.getElem?_eq_none_iff]

end NetDial.AddrList
