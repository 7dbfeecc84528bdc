import NetDial.Proofs.Json.Scalars

/-!
# Compact JSON reads back

The reader gives back every value from its compact text, if the numerals in it are
numerals of the grammar. Its fuel is the length of the text, and every step down into
a value uses up at least one character, which is what lets the fuel be compared with
the length of the text that is left (`Reads`).

**Results.**
* `parseItems_render`, `parseMembers_render`: arrays and objects read back, if what
  is in them does.
* `parse_render`: a value reads back.
-/
namespace NetDial.Json

/-! ## Values -/

/-- All numerals in the value are numerals of the grammar. -/
inductive IsWritten : Json → Prop where
  | null : IsWritten null
  | bool (value : Bool) : IsWritten (bool value)
  | number {n : Numeral} (h : n.IsWritten) : IsWritten (number n)
  | string (s : Option Text) : IsWritten (string s)
  | array {xs : List Json} (h : ∀ x ∈ xs, IsWritten x) : IsWritten (array xs)
  | object {ms : List (Option Text × Json)} (h : ∀ m ∈ ms, IsWritten m.2) : IsWritten (object ms)

/-- The reader gives back the value from its text, with any fuel above the length
of it, in front of what ends a number. -/
def Reads (j : Json) : Prop :=
  ∀ fuel rest, (render j).length < fuel → EndsNumber rest →
    parseValue fuel (render j ++ rest) = some (j, rest)

theorem skipBlanks_cons {c : Char} (h : isBlank c = false) (s : Text) :
    skipBlanks (c :: s) = c :: s := by
  have hstop : ¬ isBlank c = true := by
    rw [h]
    exact Bool.false_ne_true
  rw [skipBlanks, List.dropWhile_cons_of_neg hstop]

/-- Neither a blank nor the end of an array. -/
def Begins (c : Char) : Prop :=
  isBlank c = false ∧ c ≠ ']'

instance : DecidablePred Begins :=
  fun c => inferInstanceAs (Decidable (isBlank c = false ∧ c ≠ ']'))

theorem begins_of_numeral {c : Char} (h : c = '-' ∨ c.isDigit = true) : Begins c := by
  rcases h with rfl | h
  · exact ⟨rfl, by decide⟩
  · refine ⟨?_, ne_of_isDigit h rfl⟩
    simp only [isBlank, Bool.or_eq_false_iff, beq_eq_false_iff_ne]
    exact ⟨⟨⟨ne_of_isDigit h rfl, ne_of_isDigit h rfl⟩, ne_of_isDigit h rfl⟩,
      ne_of_isDigit h rfl⟩

/-- A value begins with neither a blank nor the end of an array. -/
theorem render_head {j : Json} (h : j.IsWritten) : ∃ c s, render j = c :: s ∧ Begins c := by
  cases h with
  | null => exact ⟨'n', _, rfl, by decide⟩
  | bool b =>
    cases b with
    | true => exact ⟨'t', _, rfl, by decide⟩
    | false => exact ⟨'f', _, rfl, by decide⟩
  | number h =>
    obtain ⟨c, s, hcons, hc⟩ := numeral_head h
    exact ⟨c, s, by rw [render, hcons], begins_of_numeral hc⟩
  | string k =>
    obtain ⟨body, hbody, -⟩ := parseString_stringContent k []
    rw [List.append_nil] at hbody
    exact ⟨'"', body, by rw [render, hbody], by decide⟩
  | @array xs _ => cases xs <;> exact ⟨'[', _, rfl, by decide⟩
  | @object ms _ => cases ms <;> exact ⟨'\x7b', _, rfl, by decide⟩

variable {fuel : Nat}

theorem parseValue_number {c : Char} (hc : c = '-' ∨ c.isDigit = true) (s : Text) :
    parseValue (fuel + 1) (c :: s) = (parseNumber (c :: s)).map fun p => (number p.1, p.2) := by
  rw [parseValue, skipBlanks_cons (begins_of_numeral hc).1]
  split
  case h_7 => rfl
  all_goals
    rename_i heq
    have hhead := (List.cons.inj heq).1
    rcases hc with rfl | hc
    · cases hhead
    · exact absurd hhead (ne_of_isDigit hc rfl)

theorem parseValue_array {c : Char} (hc : Begins c) (s : Text) :
    parseValue (fuel + 1) ('[' :: c :: s) =
      (parseItems fuel (c :: s)).map fun p => (array p.1, p.2) := by
  rw [parseValue, skipBlanks_cons rfl]
  simp only [skipBlanks_cons hc.1]
  split
  · rename_i heq
    exact absurd (List.cons.inj heq).1 hc.2
  · rfl

theorem parseValue_object (s : Text) :
    parseValue (fuel + 1) ('\x7b' :: '"' :: s) =
      (parseMembers fuel ('"' :: s)).map fun p => (object p.1, p.2) := by
  rw [parseValue, skipBlanks_cons rfl]
  simp (disch := decide) only [skipBlanks_cons]
  rfl

/-- What stands behind an item ends a number. -/
theorem endsNumber_cons {c : Char} (hc : c = ',' ∨ c = ']' ∨ c = '\x7d') (s : Text) :
    EndsNumber (c :: s) := by
  have hhead : ∀ d ∈ (c :: s).head?, d = c := fun d hd => (Option.some.inj hd).symm
  constructor
  all_goals
    intro d hd
    rw [hhead d hd]
    rcases hc with rfl | rfl | rfl <;> decide

/-- The items of an array read back. The first is kept apart because the reader has
looked behind the bracket already. -/
theorem parseItems_render {x : Json} {xs : List Json} (hx : x.Reads) (hxs : ∀ y ∈ xs, y.Reads)
    (hfuel : (render x ++ renderItems xs).length < fuel) (rest : Text) :
    parseItems fuel (render x ++ renderItems xs ++ rest) = some (x :: xs, rest) := by
  obtain ⟨fuel, rfl⟩ : ∃ m, fuel = m + 1 := ⟨fuel - 1, by omega⟩
  induction xs generalizing x fuel with
  | nil =>
    rw [renderItems, List.length_append, List.length_singleton] at hfuel
    have hread := hx fuel (']' :: rest) (by omega) (endsNumber_cons (by simp) rest)
    rw [renderItems, List.append_assoc, List.singleton_append, parseItems, hread]
    rfl
  | cons y ys ih =>
    rw [renderItems, List.length_append, List.cons_append, List.length_cons] at hfuel
    have hread := hx fuel (',' :: (render y ++ renderItems ys ++ rest)) (by omega)
      (endsNumber_cons (by simp) _)
    -- The comma pays for the step to the next item.
    obtain ⟨fuel, rfl⟩ : ∃ m, fuel = m + 1 := ⟨fuel - 1, by omega⟩
    have hmore := ih (hxs y List.mem_cons_self) (fun z hz => hxs z (List.mem_cons_of_mem y hz))
      fuel (by omega)
    rw [renderItems, List.append_assoc, List.cons_append, List.cons_append, parseItems, hread]
    simp (disch := decide) only [skipBlanks_cons, hmore, Option.map_some]

theorem parseMembers_render {k : Option Text} {v : Json} {ms : List (Option Text × Json)}
    (hv : v.Reads) (hms : ∀ m ∈ ms, m.2.Reads)
    (hfuel : (stringContent k ++ ':' :: render v ++ renderMembers ms).length < fuel)
    (rest : Text) :
    parseMembers fuel (stringContent k ++ ':' :: render v ++ renderMembers ms ++ rest) =
      some ((k, v) :: ms, rest) := by
  obtain ⟨fuel, rfl⟩ : ∃ m, fuel = m + 1 := ⟨fuel - 1, by omega⟩
  simp only [List.append_assoc, List.cons_append, List.length_append, List.length_cons] at hfuel ⊢
  induction ms generalizing k v fuel with
  | nil =>
    obtain ⟨body, hbody, hkey⟩ := parseString_stringContent k
      (':' :: (render v ++ (renderMembers [] ++ rest)))
    rw [renderMembers, List.length_singleton] at hfuel
    have hread := hv fuel ('\x7d' :: rest) (by omega) (endsNumber_cons (by simp) rest)
    rw [hbody, parseMembers, skipBlanks_cons rfl]
    simp (disch := decide) only [hkey, skipBlanks_cons]
    rw [renderMembers, List.singleton_append, hread]
    rfl
  | cons m ms ih =>
    obtain ⟨l, w⟩ := m
    obtain ⟨body, hbody, hkey⟩ := parseString_stringContent k
      (':' :: (render v ++ (renderMembers ((l, w) :: ms) ++ rest)))
    simp only [renderMembers, List.append_assoc, List.cons_append, List.length_cons,
      List.length_append] at hfuel
    have hread := hv fuel (',' :: (stringContent l ++ ':' :: (render w ++ (renderMembers ms ++
      rest)))) (by omega) (endsNumber_cons (by simp) _)
    obtain ⟨fuel, rfl⟩ : ∃ m, fuel = m + 1 := ⟨fuel - 1, by omega⟩
    have hw : w.Reads := hms (l, w) List.mem_cons_self
    have hmore := ih (k := l) hw (fun n hn => hms n (List.mem_cons_of_mem _ hn)) fuel (by omega)
    rw [hbody, parseMembers, skipBlanks_cons rfl]
    simp (disch := decide) only [hkey, skipBlanks_cons, renderMembers, List.append_assoc,
      List.cons_append, hread, hmore, Option.map_some]

/-- The reader needs fuel for a text that is not empty. -/
theorem reads_of_succ {j : Json}
    (h : ∀ fuel rest, (render j).length < fuel + 1 → EndsNumber rest →
      parseValue (fuel + 1) (render j ++ rest) = some (j, rest)) : j.Reads := by
  intro fuel rest hfuel hrest
  cases fuel with
  | zero => exact absurd hfuel (Nat.not_lt_zero _)
  | succ fuel => exact h fuel rest hfuel hrest

/-! ## Each kind of value -/

theorem reads_null : Reads null := by
  apply reads_of_succ
  intro fuel rest _ _
  show parseValue (fuel + 1) ('n' :: 'u' :: 'l' :: 'l' :: rest) = some (null, rest)
  rw [parseValue, skipBlanks_cons rfl]
  rfl

theorem reads_bool (b : Bool) : Reads (bool b) := by
  apply reads_of_succ
  intro fuel rest _ _
  cases b with
  | true =>
    show parseValue (fuel + 1) ('t' :: 'r' :: 'u' :: 'e' :: rest) = some (bool true, rest)
    rw [parseValue, skipBlanks_cons rfl]
    rfl
  | false =>
    show parseValue (fuel + 1) ('f' :: 'a' :: 'l' :: 's' :: 'e' :: rest) = some (bool false, rest)
    rw [parseValue, skipBlanks_cons rfl]
    rfl

theorem reads_number {n : Numeral} (h : n.IsWritten) : Reads (number n) := by
  apply reads_of_succ
  intro fuel rest _ hrest
  obtain ⟨c, s, hcons, hc⟩ := numeral_head h
  have hnumber := parseNumber_text h hrest
  rw [render, hcons, List.cons_append, parseValue_number hc, ← List.cons_append, ← hcons,
    hnumber, Option.map_some]

theorem reads_string (k : Option Text) : Reads (string k) := by
  apply reads_of_succ
  intro fuel rest _ _
  obtain ⟨body, hbody, hread⟩ := parseString_stringContent k rest
  rw [render, hbody, parseValue, skipBlanks_cons rfl]
  simp only [hread, Option.map_some]

theorem reads_array {xs : List Json} (hwritten : ∀ x ∈ xs, x.IsWritten)
    (hxs : ∀ x ∈ xs, x.Reads) : Reads (array xs) := by
  apply reads_of_succ
  intro fuel rest hfuel _
  cases xs with
  | nil =>
    show parseValue (fuel + 1) ('[' :: ']' :: rest) = some (array [], rest)
    rw [parseValue, skipBlanks_cons rfl]
    rfl
  | cons x xs =>
    obtain ⟨c, s, hcons, hc⟩ := render_head (hwritten x List.mem_cons_self)
    rw [render, List.cons_append, List.length_cons] at hfuel
    have hitems := parseItems_render (hxs x List.mem_cons_self)
      (fun y hy => hxs y (List.mem_cons_of_mem x hy)) (Nat.lt_of_succ_lt_succ hfuel) rest
    -- The first character decides that the array is not empty.
    rw [hcons] at hitems
    rw [render, hcons]
    simp only [List.cons_append] at hitems ⊢
    rw [parseValue_array hc, hitems, Option.map_some]

theorem reads_object {ms : List (Option Text × Json)} (hms : ∀ m ∈ ms, m.2.Reads) :
    Reads (object ms) := by
  apply reads_of_succ
  intro fuel rest hfuel _
  cases ms with
  | nil =>
    show parseValue (fuel + 1) ('\x7b' :: '\x7d' :: rest) = some (object [], rest)
    rw [parseValue, skipBlanks_cons rfl]
    rfl
  | cons m ms =>
    obtain ⟨k, v⟩ := m
    rw [render, List.cons_append, List.cons_append, List.length_cons] at hfuel
    have hmembers := parseMembers_render (hms _ List.mem_cons_self)
      (fun n hn => hms n (List.mem_cons_of_mem _ hn)) (Nat.lt_of_succ_lt_succ hfuel) rest
    obtain ⟨body, hbody, -⟩ := parseString_stringContent k
      (':' :: (render v ++ (renderMembers ms ++ rest)))
    rw [render]
    simp only [List.append_assoc, List.cons_append, hbody] at hmembers ⊢
    rw [parseValue_object, hmembers, Option.map_some]

theorem reads_of_isWritten {j : Json} (h : j.IsWritten) : j.Reads := by
  induction h with
  | null => exact reads_null
  | bool b => exact reads_bool b
  | number h => exact reads_number h
  | string k => exact reads_string k
  | array h ih => exact reads_array h ih
  | object _ ih => exact reads_object ih

/-- **Compact JSON reads back.** -/
theorem parse_render {j : Json} (h : j.IsWritten) : parse (render j) = some j := by
  have hend : EndsNumber [] := ⟨by simp, by simp, by simp⟩
  have hread := reads_of_isWritten h ((render j).length + 1) [] (Nat.lt_succ_self _) hend
  rw [List.append_nil] at hread
  rw [parse, hread]
  rfl

end NetDial.Json
