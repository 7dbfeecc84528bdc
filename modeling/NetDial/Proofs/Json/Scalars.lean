import NetDial.Json.Parse
import NetDial.Json.Print
import NetDial.Proofs.Text.Numeral

/-!
# Numerals and strings read back

What the printer writes for a numeral and for a string, the reader takes back. The
numeral has to be one of the grammar: the digits before the point are a single zero
or a run without leading zero, and no part that is there is without digits. What
stands behind it must not go on with it.

**Results.**
* `parseNumber_text`: a numeral of the grammar reads back.
* `parseString_stringContent`: so does every string, also one that stands for no
  text.
-/
namespace NetDial

/-! ## Numerals -/

/-- The numeral is one of the grammar. -/
structure Numeral.IsWritten (n : Numeral) : Prop where
  whole : Text.isDecimal n.whole = true
  leading : n.whole.head? = some '0' → n.whole = ['0']
  fraction : n.fraction ≠ [] → Text.isDecimal n.fraction = true
  exponent : ∀ e ∈ n.exponent, Text.isDecimal e.2 = true

/-- The point and the digits behind it. -/
def Numeral.fractionText (n : Numeral) : Text :=
  if n.fraction = [] then [] else '.' :: n.fraction

/-- The letter of the exponent and what stands behind it. -/
def Numeral.exponentText (n : Numeral) : Text :=
  match n.exponent with
  | none => []
  | some (.none, ds) => 'e' :: ds
  | some (.plus, ds) => 'e' :: '+' :: ds
  | some (.minus, ds) => 'e' :: '-' :: ds

theorem Numeral.text_of_parts (n : Numeral) :
    n.text = (if n.negative then ['-'] else []) ++ n.whole ++ n.fractionText ++ n.exponentText :=
  rfl

namespace Json

/-- The text is none that a number could go on with. -/
structure EndsNumber (rest : Text) : Prop where
  digit : ∀ c ∈ rest.head?, c.isDigit = false
  point : ∀ c ∈ rest.head?, c ≠ '.'
  letter : ∀ c ∈ rest.head?, c ≠ 'e' ∧ c ≠ 'E'

variable {ds rest : Text}

theorem ne_of_isDigit {c d : Char} (hc : c.isDigit = true) (hd : d.isDigit = false) : c ≠ d := by
  rintro rfl
  rw [hc] at hd
  cases hd

theorem head_of_isDecimal (hds : Text.isDecimal ds = true) :
    ∃ c s, ds = c :: s ∧ c.isDigit = true := by
  cases ds with
  | nil => cases hds
  | cons c s =>
    rw [Text.isDecimal, Bool.and_eq_true, List.all_cons, Bool.and_eq_true] at hds
    exact ⟨c, s, rfl, hds.2.1⟩

theorem digitRun?_append (hds : Text.isDecimal ds = true)
    (hrest : ∀ c ∈ rest.head?, c.isDigit = false) : digitRun? (ds ++ rest) = some (ds, rest) := by
  obtain ⟨c, s, rfl, -⟩ := head_of_isDecimal hds
  rw [Text.isDecimal, Bool.and_eq_true, List.all_eq_true] at hds
  obtain ⟨htake, hdrop⟩ := Text.span_run hds.2 hrest
  rw [digitRun?, htake, hdrop]

theorem wholePart?_append (hds : Text.isDecimal ds = true)
    (hleading : ds.head? = some '0' → ds = ['0'])
    (hrest : ∀ c ∈ rest.head?, c.isDigit = false) : wholePart? (ds ++ rest) = some (ds, rest) := by
  obtain ⟨c, s, rfl, -⟩ := head_of_isDecimal hds
  by_cases hc : c = '0'
  · subst hc
    rw [hleading rfl]
    rfl
  · rw [← digitRun?_append hds hrest]
    unfold wholePart?
    split
    · rename_i heq
      exact absurd (List.cons.inj heq).1 hc
    · rfl

variable {n : Numeral}

theorem signPart_append (h : n.IsWritten) :
    signPart ((if n.negative then ['-'] else []) ++ (n.whole ++ rest)) =
      (n.negative, n.whole ++ rest) := by
  cases n.negative with
  | true => rfl
  | false =>
    obtain ⟨c, s, hcons, hc⟩ := head_of_isDecimal h.whole
    rw [if_neg Bool.false_ne_true, List.nil_append, hcons, List.cons_append]
    unfold signPart
    split
    · rename_i heq
      exact absurd (List.cons.inj heq).1 (ne_of_isDigit hc rfl)
    · rfl

theorem exponentText_head :
    ∀ c ∈ (n.exponentText ++ rest).head?, c = 'e' ∨ c ∈ rest.head? := by
  intro c hc
  unfold Numeral.exponentText at hc
  split at hc
  · exact .inr hc
  all_goals
    simp only [List.cons_append, List.head?_cons, Option.mem_def, Option.some.injEq] at hc
    exact .inl hc.symm

theorem fractionText_head :
    ∀ c ∈ (n.fractionText ++ rest).head?, c = '.' ∨ c ∈ rest.head? := by
  intro c hc
  unfold Numeral.fractionText at hc
  split at hc
  · exact .inr hc
  · simp only [List.cons_append, List.head?_cons, Option.mem_def, Option.some.injEq] at hc
    exact .inl hc.symm

theorem fractionPart?_append (h : n.IsWritten) (hdigit : ∀ c ∈ rest.head?, c.isDigit = false)
    (hpoint : ∀ c ∈ rest.head?, c ≠ '.') :
    fractionPart? (n.fractionText ++ rest) = some (n.fraction, rest) := by
  unfold Numeral.fractionText
  split
  · rename_i hnone
    rw [hnone, List.nil_append]
    unfold fractionPart?
    split
    · exact absurd rfl (hpoint '.' (by simp))
    · rfl
  · rename_i hsome
    exact digitRun?_append (h.fraction hsome) hdigit

theorem exponentDigits?_append (hds : Text.isDecimal ds = true)
    (hrest : ∀ c ∈ rest.head?, c.isDigit = false) :
    exponentDigits? (ds ++ rest) = some ((.none, ds), rest) := by
  obtain ⟨c, s, rfl, hc⟩ := head_of_isDecimal hds
  have hrun := digitRun?_append hds hrest
  unfold exponentDigits?
  split
  · rename_i heq
    exact absurd (List.cons.inj heq).1 (ne_of_isDigit hc rfl)
  · rename_i heq
    exact absurd (List.cons.inj heq).1 (ne_of_isDigit hc rfl)
  · rw [hrun, Option.map_some]

theorem exponentPart?_append (h : n.IsWritten) (hrest : EndsNumber rest) :
    exponentPart? (n.exponentText ++ rest) = some (n.exponent, rest) := by
  unfold Numeral.exponentText
  split
  · rename_i hnone
    rw [hnone, List.nil_append]
    unfold exponentPart?
    split
    · exact absurd rfl (hrest.letter 'e' (by simp)).1
    · exact absurd rfl (hrest.letter 'E' (by simp)).2
    · rfl
  · rename_i ds hsome
    have hrun := exponentDigits?_append (h.exponent _ hsome) hrest.digit
    rw [hsome, List.cons_append, exponentPart?, hrun, Option.map_some]
  · rename_i ds hsome
    have hrun := digitRun?_append (h.exponent _ hsome) hrest.digit
    simp only [hsome, List.cons_append, exponentPart?, exponentDigits?, hrun, Option.map_some]
  · rename_i ds hsome
    have hrun := digitRun?_append (h.exponent _ hsome) hrest.digit
    simp only [hsome, List.cons_append, exponentPart?, exponentDigits?, hrun, Option.map_some]

theorem parseNumber_text (h : n.IsWritten) (hrest : EndsNumber rest) :
    parseNumber (n.text ++ rest) = some (n, rest) := by
  have hbehind : ∀ c ∈ (n.exponentText ++ rest).head?, c.isDigit = false ∧ c ≠ '.' := by
    intro c hc
    rcases exponentText_head c hc with rfl | hc
    · decide
    · exact ⟨hrest.digit c hc, hrest.point c hc⟩
  have hpoint : ∀ c ∈ (n.fractionText ++ (n.exponentText ++ rest)).head?, c.isDigit = false := by
    intro c hc
    rcases fractionText_head c hc with rfl | hc
    · decide
    · exact (hbehind c hc).1
  have hsign : signPart (n.text ++ rest) =
      (n.negative, n.whole ++ (n.fractionText ++ (n.exponentText ++ rest))) := by
    rw [← signPart_append h, Numeral.text_of_parts]
    simp only [List.append_assoc]
  simp only [parseNumber, hsign, wholePart?_append h.whole h.leading hpoint,
    fractionPart?_append h (fun c hc => (hbehind c hc).1) (fun c hc => (hbehind c hc).2),
    exponentPart?_append h hrest, Option.bind_eq_bind, Option.bind_some, Option.pure_def]

/-- A numeral begins with a digit or a minus. -/
theorem numeral_head (h : n.IsWritten) :
    ∃ c s, n.text = c :: s ∧ (c = '-' ∨ c.isDigit = true) := by
  obtain ⟨c, s, hcons, hc⟩ := head_of_isDecimal h.whole
  rw [Numeral.text_of_parts, hcons]
  cases n.negative with
  | true => exact ⟨'-', _, rfl, .inl rfl⟩
  | false => exact ⟨c, _, rfl, .inr hc⟩

/-! ## Strings -/

section Strings

variable {c d : Char} {s : Text}

theorem stringUnits_escape (hc : c ≠ 'u') (hd : simpleEscape? c = some d) :
    stringUnits ('\\' :: c :: s) = (stringUnits s).map fun p => (d.toNat :: p.1, p.2) := by
  rw [stringUnits]
  · rw [hd]
    cases stringUnits s <;> rfl
  · rintro - - - - - rfl
    exact absurd rfl hc

theorem stringUnits_unit {x y z w : Char} {u : Nat} (hu : hex4? x y z w = some u) :
    stringUnits ('\\' :: 'u' :: x :: y :: z :: w :: s) =
      (stringUnits s).map fun p => (u :: p.1, p.2) := by
  rw [stringUnits, hu]
  cases stringUnits s <;> rfl

theorem stringUnits_plain (hquote : c ≠ '"') (hslash : c ≠ '\\') (hcontrol : ¬ c.toNat < 32) :
    stringUnits (c :: s) = (stringUnits s).map fun p => (c.toNat :: p.1, p.2) := by
  rw [stringUnits]
  · rw [if_neg (by simp [hslash, hcontrol])]
    cases stringUnits s <;> rfl
  · exact hquote
  · intro _ _ _ _ _ h
    exact absurd h hslash
  · intro _ _ h
    exact absurd h hslash

theorem padZeros_hexadecimal {n : Nat} (hn : n < 32) :
    Text.padZeros 4 (Text.hexadecimal n) =
      ['0', '0', Nat.digitChar (n / 16), Nat.digitChar (n % 16)] := by
  have hhigh : n / 16 < 16 := by omega
  rcases Nat.lt_or_ge n 16 with hlt | hge
  · rw [Text.hexadecimal, Text.numeral_of_lt _ hlt, Nat.div_eq_of_lt hlt, Nat.mod_eq_of_lt hlt]
    rfl
  · rw [Text.hexadecimal, Text.numeral_of_le _ hge, Text.numeral_of_lt _ hhigh]
    rfl

theorem hex4?_control {n : Nat} (hn : n < 32) :
    hex4? '0' '0' (Nat.digitChar (n / 16)) (Nat.digitChar (n % 16)) = some n := by
  have hzero : Text.hexValue? '0' = some 0 := rfl
  have hhigh := Text.hexValue?_digitChar (n / 16) (by omega)
  have hlow := Text.hexValue?_digitChar (n % 16) (by omega)
  simp only [hex4?, hzero, hhigh, hlow, Option.bind_eq_bind, Option.bind_some, Option.pure_def,
    Option.some.injEq]
  omega

/-- A character inside a string reads back as its code unit. -/
theorem stringUnits_charText (c : Char) (s : Text) :
    stringUnits (charText c ++ s) = (stringUnits s).map fun p => (c.toNat :: p.1, p.2) := by
  unfold charText
  split
  · subst_vars
    exact stringUnits_escape (by decide) rfl
  split
  · subst_vars
    exact stringUnits_escape (by decide) rfl
  split
  · subst_vars
    exact stringUnits_escape (by decide) rfl
  split
  · subst_vars
    exact stringUnits_escape (by decide) rfl
  split
  · subst_vars
    exact stringUnits_escape (by decide) rfl
  split
  · subst_vars
    exact stringUnits_escape (by decide) rfl
  split
  · subst_vars
    exact stringUnits_escape (by decide) rfl
  split
  · -- The controls without a letter of their own.
    rename_i hcontrol
    rw [padZeros_hexadecimal hcontrol]
    exact stringUnits_unit (hex4?_control hcontrol)
  · rename_i hquote hslash _ _ _ _ _ hcontrol
    exact stringUnits_plain hquote hslash hcontrol

theorem stringUnits_text (s rest : Text) :
    stringUnits (s.flatMap charText ++ '"' :: rest) = some (s.map Char.toNat, rest) := by
  induction s with
  | nil => rfl
  | cons c s ih =>
    rw [List.flatMap_cons, List.append_assoc, stringUnits_charText, ih]
    rfl

/-- A character is no surrogate, so a text is the text of its code units. -/
theorem unitsText?_map_toNat (s : Text) : unitsText? (s.map Char.toNat) = some s := by
  induction s with
  | nil => rfl
  | cons c s ih =>
    have hvalid : c.toNat < 0xd800 ∨ 0xdfff < c.toNat ∧ c.toNat < 0x110000 := c.valid
    have hhigh : isHighSurrogate c.toNat = false := by
      rw [isHighSurrogate, Bool.and_eq_false_iff, decide_eq_false_iff_not,
        decide_eq_false_iff_not]
      omega
    have hlow : isLowSurrogate c.toNat = false := by
      rw [isLowSurrogate, Bool.and_eq_false_iff, decide_eq_false_iff_not,
        decide_eq_false_iff_not]
      omega
    rw [List.map_cons, unitsText?.eq_def]
    simp only [hhigh, hlow, ih, Char.ofNat_toNat, Bool.false_eq_true, if_false, Option.map_some]

/-- Every string reads back; an unpaired surrogate stands for no text. -/
theorem parseString_stringContent (k : Option Text) (rest : Text) :
    ∃ body, stringContent k ++ rest = '"' :: body ∧ parseString body = some (k, rest) := by
  cases k with
  | none =>
    refine ⟨'\\' :: 'u' :: 'd' :: '8' :: '0' :: '0' :: '"' :: rest, rfl, ?_⟩
    have hsurrogate : hex4? 'd' '8' '0' '0' = some 0xd800 := rfl
    rw [parseString, stringUnits_unit hsurrogate]
    rfl
  | some s =>
    refine ⟨s.flatMap charText ++ '"' :: rest, ?_, ?_⟩
    · show stringText s ++ rest = '"' :: (s.flatMap charText ++ '"' :: rest)
      rw [stringText, List.append_assoc, List.cons_append, List.singleton_append]
    · rw [parseString, stringUnits_text, Option.map_some, unitsText?_map_toNat]

end Strings

end Json
end NetDial
