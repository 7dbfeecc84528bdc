/-!
# Keyed entries

A list of entries by key, in the order in which the keys came. Putting an
entry under a key that is there takes its place. A key is looked up with
`List.lookup`.

**Results.**
* `lookup_put_self`, `lookup_put_of_ne`: what is put under a key is found
  under it, and every other key keeps its entry.
-/
namespace NetDial.Keyed

variable {κ α : Type} [DecidableEq κ]

/-- The entries with `a` under the key `k`. -/
def put (k : κ) (a : α) : List (κ × α) → List (κ × α)
  | [] => [(k, a)]
  | e :: es => if e.1 = k then (k, a) :: es else e :: put k a es

theorem lookup_put_self (k : κ) (a : α) (es : List (κ × α)) :
    (put k a es).lookup k = some a := by
  induction es with
  | nil => simp [put]
  | cons e es ih =>
    obtain ⟨l, b⟩ := e
    by_cases h : l = k
    · simp [put, h]
    · have hb : (k == l) = false := beq_false_of_ne (Ne.symm h)
      simp [put, h, List.lookup_cons, hb, ih]

theorem lookup_put_of_ne {k l : κ} (h : l ≠ k) (a : α) (es : List (κ × α)) :
    (put k a es).lookup l = es.lookup l := by
  have hb : (l == k) = false := beq_false_of_ne h
  induction es with
  | nil => simp [put, List.lookup_cons, hb]
  | cons e es ih =>
    obtain ⟨m, b⟩ := e
    by_cases hm : m = k
    · simp [put, hm, List.lookup_cons, hb]
    · simp [put, hm, List.lookup_cons, ih]

end NetDial.Keyed
