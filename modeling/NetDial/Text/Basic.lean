/-!
# Texts

A text is the list of its characters, so that every reader of this library is
a recursion on the text and every printer an append. This module holds the
cuts at a character that the readers share, the size of a text in bytes and
the ASCII case map.

**Results.**
* `splitFirst?_eq_some_iff`, `splitLast?_eq_some_iff`: a cut gives back
  exactly the two sides, and which occurrence was cut.
* `splitFirst?_eq_none_iff`, `splitLast?_eq_none_iff`: a cut fails exactly
  when the character does not occur.
-/
namespace NetDial

/-- A text is the list of its characters. -/
abbrev Text := List Char

namespace Text

/-- The size of a text in its UTF-8 form. -/
def byteLength : Text → Nat
  | [] => 0
  | c :: s => c.utf8Size + byteLength s

/-- The text with its ASCII capitals made small; other characters stay. -/
def lower (s : Text) : Text :=
  s.map Char.toLower

/-- Two texts that differ at most in the case of ASCII letters. -/
def sameIgnoringCase (s t : Text) : Bool :=
  lower s == lower t

/-- Texts in dictionary order of their code points, which is also the order of
their UTF-8 bytes. -/
def order : Text → Text → Ordering
  | [], [] => .eq
  | [], _ :: _ => .lt
  | _ :: _, [] => .gt
  | c :: s, d :: t =>
    if c.val < d.val then .lt else if d.val < c.val then .gt else order s t

/-- `s` does not come after `t`. -/
def le (s t : Text) : Bool :=
  order s t != .gt

/-- The parts of `ts` with `sep` between neighbours. -/
def join (sep : Text) : List Text → Text
  | [] => []
  | [t] => t
  | t :: u :: ts => t ++ sep ++ join sep (u :: ts)

/-! ## Cuts at a character -/

/-- The parts between the occurrences of `c`, one more than there are. -/
def split (c : Char) : Text → List Text
  | [] => [[]]
  | x :: s =>
    if x = c then [] :: split c s
    else
      match split c s with
      | [] => [[x]]
      | t :: ts => (x :: t) :: ts

/-- What stands before and behind the first `c`. -/
def splitFirst? (c : Char) : Text → Option (Text × Text)
  | [] => none
  | x :: s => if x = c then some ([], s) else (splitFirst? c s).map fun p => (x :: p.1, p.2)

/-- What stands before and behind the last `c`. -/
def splitLast? (c : Char) : Text → Option (Text × Text)
  | [] => none
  | x :: s =>
    match splitLast? c s with
    | some (a, b) => some (x :: a, b)
    | none => if x = c then some ([], s) else none

theorem splitFirst?_eq_none_iff {c : Char} {s : Text} : splitFirst? c s = none ↔ c ∉ s := by
  induction s with
  | nil => simp [splitFirst?]
  | cons x s ih =>
    by_cases h : x = c
    · simp [splitFirst?, h]
    · simp [splitFirst?, h, ih, Ne.symm h]

theorem splitFirst?_eq_some_iff {c : Char} {s a b : Text} :
    splitFirst? c s = some (a, b) ↔ s = a ++ c :: b ∧ c ∉ a := by
  induction s generalizing a with
  | nil => simp [splitFirst?]
  | cons x s ih =>
    by_cases h : x = c
    · subst h
      cases a with
      | nil => simp [splitFirst?, eq_comm]
      | cons y a => simp [splitFirst?]; intro h1; simp [h1]
    · cases a with
      | nil => simp [splitFirst?, h]
      | cons y a =>
        simp only [splitFirst?, h, if_false, Option.map_eq_some_iff, Prod.mk.injEq,
          List.cons.injEq, Prod.exists, List.cons_append, List.mem_cons, not_or]
        constructor
        · rintro ⟨a', b', hs, ⟨rfl, rfl⟩, rfl⟩
          obtain ⟨h1, h2⟩ := ih.1 hs
          exact ⟨⟨rfl, h1⟩, Ne.symm h, h2⟩
        · rintro ⟨⟨rfl, h1⟩, -, h2⟩
          exact ⟨a, b, ih.2 ⟨h1, h2⟩, ⟨rfl, rfl⟩, rfl⟩

theorem splitLast?_eq_none_iff {c : Char} {s : Text} : splitLast? c s = none ↔ c ∉ s := by
  induction s with
  | nil => simp [splitLast?]
  | cons x s ih =>
    unfold splitLast?
    cases hs : splitLast? c s with
    | some p =>
      have : c ∈ s := Classical.byContradiction fun h => by simp [ih.2 h] at hs
      simp [this]
    | none =>
      have := ih.1 hs
      by_cases h : x = c
      · simp [h]
      · simp [h, this, Ne.symm h]

theorem splitLast?_eq_some_iff {c : Char} {s a b : Text} :
    splitLast? c s = some (a, b) ↔ s = a ++ c :: b ∧ c ∉ b := by
  induction s generalizing a b with
  | nil => simp [splitLast?]
  | cons x s ih =>
    unfold splitLast?
    cases hs : splitLast? c s with
    | some p =>
      obtain ⟨a', b'⟩ := p
      obtain ⟨h1, h2⟩ := ih.1 hs
      have hmem : c ∈ s := by simp [h1]
      cases a with
      | nil =>
        simp only [Option.some.injEq, Prod.mk.injEq, reduceCtorEq, false_and, List.nil_append,
          List.cons.injEq, false_iff, not_and]
        rintro ⟨-, rfl⟩ h
        exact h hmem
      | cons y a =>
        simp only [Option.some.injEq, Prod.mk.injEq, List.cons.injEq, List.cons_append]
        constructor
        · rintro ⟨⟨rfl, rfl⟩, rfl⟩
          exact ⟨⟨rfl, h1⟩, h2⟩
        · rintro ⟨⟨rfl, h3⟩, h4⟩
          have := hs.symm.trans (ih.2 ⟨h3, h4⟩)
          simp only [Option.some.injEq, Prod.mk.injEq] at this
          exact ⟨⟨rfl, this.1⟩, this.2⟩
    | none =>
      have hmem := splitLast?_eq_none_iff.1 hs
      cases a with
      | nil =>
        by_cases h : x = c
        · subst h; simp only [if_true, Option.some.injEq, Prod.mk.injEq, true_and,
            List.nil_append, List.cons.injEq]
          exact ⟨fun h => h ▸ ⟨rfl, hmem⟩, fun h => h.1⟩
        · simp [h]
      | cons y a =>
        simp only [List.cons_append, List.cons.injEq]
        constructor
        · intro h; split at h <;> simp at h
        · rintro ⟨⟨-, rfl⟩, -⟩
          simp at hmem

end Text
end NetDial
