import NetDial.Proofs.Filter.Composition

/-!
# Lists of addresses side by side

Lists of different kinds are built, changed and picked from in any order
(`ListStep`). A list that an operation makes is put behind the others, and a list
that it changes keeps its place. An operation may be refused, which leaves all
lists as they are.

**Results.**
* `homogeneous_next?`, `homogeneous_run`: every list keeps to its kind.
* `select_select`: picking from what was picked is picking once, by what is left
  of the first indices when those without element are dropped.
* `lists_stay_homogeneous`: this, and what each operation does to a list.
-/
namespace NetDial

namespace AddrList

variable {l src : AddrList}

/-! ## Operations that keep the kind -/

theorem homogeneous_of_push {l' : AddrList} {a : NetAddr} (h : l.Homogeneous)
    (hpush : l.push a = .ok l') : l'.Homogeneous := by
  by_cases ha : a.kind = l.kind
  · rw [push_of_kind ha] at hpush
    cases hpush
    intro b hb
    rcases List.mem_append.1 hb with hb | hb
    · exact h b hb
    · rw [List.mem_singleton.1 hb]
      exact ha
  · rw [push_of_ne ha] at hpush
    cases hpush

theorem homogeneous_of_ofAddrs {kind : AddrKind} {addrs : List NetAddr}
    (h : ofAddrs kind addrs = .ok l) : l.Homogeneous := by
  rcases ofAddrs_cases kind addrs with ⟨hall, hok⟩ | ⟨_, _, _, _, _, _, herror⟩
  · rw [hok] at h
    cases h
    exact hall
  · rw [herror] at h
    cases h

theorem homogeneous_appendFrom (h : l.Homogeneous) (hsrc : src.Homogeneous) (i : Nat) :
    (l.appendFrom src i).Homogeneous := by
  by_cases hkind : src.kind = l.kind
  · rw [appendFrom_of_kind hkind]
    intro b hb
    rcases List.mem_append.1 hb with hb | hb
    · exact h b hb
    · have hmem : b ∈ src.addrs := List.mem_of_getElem? (Option.mem_toList.1 hb)
      exact (hsrc b hmem).trans hkind
  · rw [appendFrom_of_kind_ne hkind]
    exact h

theorem homogeneous_select (h : l.Homogeneous) (indices : List Nat) :
    (l.select indices).Homogeneous := by
  rw [select_eq]
  intro b hb
  exact h b (Filter.mem_of_mem_pick hb)

theorem homogeneous_newLike (l : AddrList) : l.newLike.Homogeneous :=
  fun _ h => nomatch h

theorem isSome_swap?_iff {i j : Nat} :
    (l.swap? i j).isSome = true ↔ i < l.addrs.length ∧ j < l.addrs.length := by
  unfold swap?
  by_cases hi : i < l.addrs.length <;> by_cases hj : j < l.addrs.length <;> simp [hi, hj]

theorem homogeneous_of_swap? {l' : AddrList} {i j : Nat} (h : l.Homogeneous)
    (hswap : l.swap? i j = some l') : l'.Homogeneous := by
  unfold swap? at hswap
  split at hswap
  · rename_i a b hi hj
    cases hswap
    intro c hc
    rcases List.mem_or_eq_of_mem_set hc with hc | rfl
    · rcases List.mem_or_eq_of_mem_set hc with hc | rfl
      · exact h c hc
      · exact h c (List.mem_of_getElem? hj)
    · exact h c (List.mem_of_getElem? hi)
  · cases hswap

/-- Indices without element are dropped before the places of the second pick are
counted. -/
theorem select_select (l : AddrList) (is js : List Nat) :
    (l.select is).select js =
      l.select (js.filterMap fun j => (is.filter (· < l.addrs.length))[j]?) := by
  have hkept : ∀ i ∈ is.filter (· < l.addrs.length), i < l.addrs.length := fun i hi => by
    simpa using (List.mem_filter.1 hi).2
  have hdrop : Filter.pick l.addrs is = Filter.pick l.addrs (is.filter (· < l.addrs.length)) := by
    unfold Filter.pick
    rw [List.filterMap_filter]
    congr 1
    funext i
    by_cases hi : i < l.addrs.length <;> simp [hi]
  rw [select_eq, select_eq, select_eq]
  show AddrList.mk l.kind (Filter.pick (Filter.pick l.addrs is) js) = ⟨l.kind, Filter.pick _ _⟩
  rw [hdrop, Filter.pick_pick hkept]
  rfl

end AddrList

/-! ## Several lists -/

/-- An operation on lists that go by their places. -/
inductive ListStep where
  | ofAddrs (kind : AddrKind) (addrs : List NetAddr)
  | push (list : Nat) (addr : NetAddr)
  | appendFrom (list src i : Nat)
  | select (list : Nat) (indices : List Nat)
  | newLike (list : Nat)
  | swap (list i j : Nat)

namespace ListStep

/-- Whether an operation is refused, and the lists behind it. There is no operation
on a list that is not there, and no swap of elements that are not there. -/
def next? (lists : List AddrList) : ListStep → Option (Option KindMismatch × List AddrList)
  | ofAddrs kind addrs =>
    match AddrList.ofAddrs kind addrs with
    | .ok l => some (none, lists ++ [l])
    | .error e => some (some e, lists)
  | push n a => do
    let l ← lists[n]?
    match l.push a with
    | .ok l => some (none, lists.set n l)
    | .error e => some (some e, lists)
  | appendFrom n m i => do
    let l ← lists[n]?
    let src ← lists[m]?
    some (none, lists.set n (l.appendFrom src i))
  | select n indices => do
    let l ← lists[n]?
    some (none, lists ++ [l.select indices])
  | newLike n => do
    let l ← lists[n]?
    some (none, lists ++ [l.newLike])
  | swap n i j => do
    let l ← lists[n]?
    let l ← l.swap? i j
    some (none, lists.set n l)

/-- The lists of the operation are there, and so are the elements of a swap. -/
def InRange (lists : List AddrList) : ListStep → Prop
  | ofAddrs _ _ => True
  | push n _ => n < lists.length
  | appendFrom n m _ => n < lists.length ∧ m < lists.length
  | select n _ => n < lists.length
  | newLike n => n < lists.length
  | swap n i j => ∃ l, lists[n]? = some l ∧ i < l.addrs.length ∧ j < l.addrs.length

/-- The lists after operations, if each can be made. -/
def run (lists : List AddrList) (steps : List ListStep) : Option (List AddrList) :=
  steps.foldlM (fun lists s => (s.next? lists).map Prod.snd) lists

variable {lists after : List AddrList} {l : AddrList} {n : Nat}

/-- An operation can be made exactly if everything it is about is there. -/
theorem isSome_next?_iff {s : ListStep} : (s.next? lists).isSome = true ↔ s.InRange lists := by
  cases s with
  | ofAddrs kind addrs =>
    refine iff_of_true ?_ trivial
    simp only [next?]
    split <;> rfl
  | push n a =>
    by_cases hn : n < lists.length
    · refine iff_of_true ?_ hn
      simp only [next?, List.getElem?_eq_getElem hn, Option.bind_eq_bind, Option.bind_some]
      split <;> rfl
    · simp [next?, InRange, hn]
  | appendFrom n m i =>
    by_cases hn : n < lists.length <;> by_cases hm : m < lists.length <;>
      simp [next?, InRange, hn, hm]
  | select n indices => by_cases hn : n < lists.length <;> simp [next?, InRange, hn]
  | newLike n => by_cases hn : n < lists.length <;> simp [next?, InRange, hn]
  | swap n i j =>
    simp only [next?, InRange, Option.bind_eq_bind]
    cases lists[n]? with
    | none => simp
    | some l =>
      simp only [Option.bind_some, Option.some.injEq, exists_eq_left', ← AddrList.isSome_swap?_iff]
      cases l.swap? i j <;> simp

theorem homogeneous_append (h : ∀ l ∈ lists, l.Homogeneous) (hl : l.Homogeneous) :
    ∀ l' ∈ lists ++ [l], l'.Homogeneous := by
  intro l' hl'
  rcases List.mem_append.1 hl' with hl' | hl'
  · exact h l' hl'
  · rw [List.mem_singleton.1 hl']
    exact hl

theorem homogeneous_set (h : ∀ l ∈ lists, l.Homogeneous) (hl : l.Homogeneous) :
    ∀ l' ∈ lists.set n l, l'.Homogeneous := by
  intro l' hl'
  rcases List.mem_or_eq_of_mem_set hl' with hl' | rfl
  · exact h l' hl'
  · exact hl

/-- One operation keeps every list to its kind. -/
theorem homogeneous_next? {s : ListStep} {refused : Option KindMismatch}
    (h : ∀ l ∈ lists, l.Homogeneous) (hs : s.next? lists = some (refused, after)) :
    ∀ l ∈ after, l.Homogeneous := by
  cases s with
  | ofAddrs kind addrs =>
    simp only [next?] at hs
    split at hs
    · rename_i l hl
      cases hs
      exact homogeneous_append h (AddrList.homogeneous_of_ofAddrs hl)
    · cases hs
      exact h
  | push n a =>
    simp only [next?, Option.bind_eq_bind, Option.bind_eq_some_iff] at hs
    obtain ⟨l, hl, hs⟩ := hs
    split at hs
    · rename_i l' hpush
      cases hs
      exact homogeneous_set h (AddrList.homogeneous_of_push (h l (List.mem_of_getElem? hl)) hpush)
    · cases hs
      exact h
  | appendFrom n m i =>
    simp only [next?, Option.bind_eq_bind, Option.bind_eq_some_iff] at hs
    obtain ⟨l, hl, src, hsrc, hs⟩ := hs
    cases hs
    exact homogeneous_set h (AddrList.homogeneous_appendFrom (h l (List.mem_of_getElem? hl))
      (h src (List.mem_of_getElem? hsrc)) i)
  | select n indices =>
    simp only [next?, Option.bind_eq_bind, Option.bind_eq_some_iff] at hs
    obtain ⟨l, hl, hs⟩ := hs
    cases hs
    exact homogeneous_append h
      (AddrList.homogeneous_select (h l (List.mem_of_getElem? hl)) indices)
  | newLike n =>
    simp only [next?, Option.bind_eq_bind, Option.bind_eq_some_iff] at hs
    obtain ⟨l, hl, hs⟩ := hs
    cases hs
    exact homogeneous_append h l.homogeneous_newLike
  | swap n i j =>
    simp only [next?, Option.bind_eq_bind, Option.bind_eq_some_iff] at hs
    obtain ⟨l, hl, l', hswap, hs⟩ := hs
    cases hs
    exact homogeneous_set h (AddrList.homogeneous_of_swap? (h l (List.mem_of_getElem? hl)) hswap)

theorem homogeneous_run {steps : List ListStep} (h : ∀ l ∈ lists, l.Homogeneous)
    (hrun : run lists steps = some after) : ∀ l ∈ after, l.Homogeneous := by
  induction steps generalizing lists with
  | nil =>
    cases hrun
    exact h
  | cons s steps ih =>
    simp only [run, List.foldlM_cons, Option.bind_eq_bind, Option.bind_eq_some_iff,
      Option.map_eq_some_iff] at hrun
    obtain ⟨next, ⟨⟨refused, _⟩, hs, rfl⟩, hrun⟩ := hrun
    exact ih (homogeneous_next? h hs) hrun

/-- **Homogeneous lists.** However lists are built, changed and picked from, the
addresses in each have its kind; only operations on what is not there cannot be
made. A push is refused exactly if the kinds differ, and changes nothing then. A
list is made of addresses in their order exactly if all have its kind, and else the
first other kind is reported. Appending from a list, the same one included, does
nothing exactly if the index is out of range or the kinds differ. A pick is made of
the elements at those indices that have one, and two picks are one pick by what the
second takes of the indices that the first did not drop. -/
theorem lists_stay_homogeneous :
    (∀ steps lists, run [] steps = some lists → ∀ l ∈ lists, ∀ a ∈ l.addrs, a.kind = l.kind) ∧
    (∀ (lists : List AddrList) (s : ListStep),
      (s.next? lists).isSome = true ↔ s.InRange lists) ∧
    (∀ (lists : List AddrList) n l a, lists[n]? = some l →
      (a.kind ≠ l.kind → (push n a).next? lists = some (some ⟨l.kind, a.kind⟩, lists)) ∧
      (a.kind = l.kind →
        (push n a).next? lists = some (none, lists.set n ⟨l.kind, l.addrs ++ [a]⟩))) ∧
    (∀ kind addrs,
      ((∀ a ∈ addrs, a.kind = kind) ∧ AddrList.ofAddrs kind addrs = .ok ⟨kind, addrs⟩) ∨
        ∃ front a back, addrs = front ++ a :: back ∧ (∀ b ∈ front, b.kind = kind) ∧
          a.kind ≠ kind ∧ AddrList.ofAddrs kind addrs = .error ⟨kind, a.kind⟩) ∧
    (∀ (l src : AddrList) i,
      ((l.appendFrom src i).addrs = l.addrs ↔ src.addrs.length ≤ i ∨ src.kind ≠ l.kind) ∧
      (src.kind = l.kind → l.appendFrom src i = ⟨l.kind, l.addrs ++ src.addrs[i]?.toList⟩)) ∧
    ∀ (l : AddrList) is, l.select is = ⟨l.kind, is.filterMap (l.addrs[·]?)⟩ ∧
      ∀ js, (l.select is).select js =
        l.select (js.filterMap fun j => (is.filter (· < l.addrs.length))[j]?) := by
  refine ⟨fun steps lists hrun => homogeneous_run (fun _ hl => absurd hl List.not_mem_nil) hrun,
    fun lists s => isSome_next?_iff, fun lists n l a hl => ⟨fun ha => ?_, fun ha => ?_⟩,
    AddrList.ofAddrs_cases, fun l src i => ⟨AddrList.appendFrom_addrs_eq_iff,
    fun hkind => AddrList.appendFrom_of_kind hkind i⟩,
    fun l is => ⟨AddrList.select_eq l is, AddrList.select_select l is⟩⟩
  · simp [next?, hl, AddrList.push_of_ne ha]
  · simp [next?, hl, AddrList.push_of_kind ha]

/-- A list of two paths and one of a stream. A third path and a path of the first
list find no place in the second; the first list takes one of its own paths again,
and is picked from by indices of which one has no element. -/
def mixedSteps : List ListStep :=
  [.ofAddrs .localPath [.localPath "/a".toList, .localPath "/b".toList],
    .ofAddrs .stream [.stream (.ofIp (.v4 ⟨10, 0, 0, 1⟩)) 80],
    .push 1 (.localPath "/c".toList), .appendFrom 1 0 0, .appendFrom 0 0 1,
    .select 0 [2, 9, 0, 2], .swap 2 0 1, .newLike 1]

theorem lists_stay_homogeneous_mixed :
    ∃ lists, run [] mixedSteps = some lists ∧ lists.map AddrList.length = [3, 1, 3, 0] ∧
      ∀ l ∈ lists, ∀ a ∈ l.addrs, a.kind = l.kind := by
  obtain ⟨lists, hrun⟩ : ∃ lists, run [] mixedSteps = some lists := ⟨_, rfl⟩
  refine ⟨lists, hrun, ?_, lists_stay_homogeneous.1 mixedSteps lists hrun⟩
  cases hrun
  rfl

end ListStep
end NetDial
