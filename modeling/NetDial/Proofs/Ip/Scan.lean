import NetDial.Ip.Scan

/-!
# What the digit readers read

Both readers of numbers take the whole run of digits in front of a text, or
nothing. Their 32-bit words never wrap: the hexadecimal reader takes four digits
at most, and the decimal one gives up long before the word is full.

**Results.**
* `scanHex?_eq`: the hexadecimal reader takes a run of one to four digits and
  gives its value.
* `scanDecimal?_eq`: the decimal reader takes a run of any length and gives its
  value, if it is below `decimalLimit`.
* `hexadecimalValue_lt`: the value of a hexadecimal run that is taken fits 16
  bits.
-/
namespace NetDial

namespace Text

/-- A hexadecimal digit of either case. -/
def isHexDigit (c : Char) : Bool :=
  (hexValue? c).isSome

/-- The number that a run of hexadecimal digits stands for, `n` being what was
read before it. -/
def hexadecimalValueFrom (n : Nat) (s : Text) : Nat :=
  s.foldl (fun n c => n * 16 + (hexValue? c).getD 0) n

/-- The number that a run of hexadecimal digits stands for. -/
def hexadecimalValue (s : Text) : Nat :=
  hexadecimalValueFrom 0 s

/-! ## Digits and runs of them -/

/-- A run in front of what does not go on with it is taken as a whole. -/
theorem span_run {p : Char → Bool} {run rest : Text} (hrun : ∀ c ∈ run, p c = true)
    (hrest : ∀ c ∈ rest.head?, p c = false) :
    (run ++ rest).takeWhile p = run ∧ (run ++ rest).dropWhile p = rest := by
  have hnone : rest.takeWhile p = [] ∧ rest.dropWhile p = rest := by
    cases rest with
    | nil => simp
    | cons c rest => simp [hrest c (by simp)]
  rw [List.takeWhile_append_of_pos hrun, List.dropWhile_append_of_pos hrun, hnone.1, hnone.2,
    List.append_nil]
  exact ⟨rfl, rfl⟩

theorem hexValue?_lt {c : Char} {d : Nat} (h : hexValue? c = some d) : d < 16 := by
  have hc : c.toNat = c.val.toNat := rfl
  unfold hexValue? at h
  simp only [Char.le_def, UInt32.le_iff_toNat_le, Char.reduceVal, UInt32.reduceToNat,
    Char.reduceToNat] at h
  split at h
  · simp only [Option.some.injEq] at h; omega
  · split at h
    · simp only [Option.some.injEq] at h; omega
    · split at h
      · simp only [Option.some.injEq] at h; omega
      · cases h

theorem isHexDigit_of_isDigit {c : Char} (h : c.isDigit = true) : isHexDigit c = true := by
  have hr : '0' ≤ c ∧ c ≤ '9' := by
    simpa [Char.isDigit, Char.le_def] using h
  simp [isHexDigit, hexValue?, hr]

theorem ascii_of_isHexDigit {c : Char} (h : isHexDigit c = true) : c.toNat < 128 := by
  have hc : c.toNat = c.val.toNat := rfl
  unfold isHexDigit hexValue? at h
  simp only [Char.le_def, UInt32.le_iff_toNat_le, Char.reduceVal, UInt32.reduceToNat] at h
  split at h
  · omega
  · split at h
    · omega
    · split at h
      · omega
      · cases h

theorem toNat_of_isDigit {c : Char} (h : c.isDigit = true) : 48 ≤ c.toNat ∧ c.toNat ≤ 57 := by
  have h9 : '9'.val.toNat = 57 := rfl
  simpa [Char.isDigit, UInt32.le_iff_toNat_le, h9] using h

theorem digitValue_lt {c : Char} (h : c.isDigit = true) : digitValue c < 10 := by
  have := toNat_of_isDigit h
  show c.toNat - 48 < 10
  omega

theorem hexadecimalValueFrom_cons {c : Char} {d : Nat} (h : hexValue? c = some d) (n : Nat)
    (s : Text) : hexadecimalValueFrom n (c :: s) = hexadecimalValueFrom (n * 16 + d) s := by
  simp [hexadecimalValueFrom, h]

theorem hexadecimalValue_concat {c : Char} {d : Nat} (h : hexValue? c = some d) (s : Text) :
    hexadecimalValue (s ++ [c]) = hexadecimalValue s * 16 + d := by
  simp [hexadecimalValue, hexadecimalValueFrom, h]

theorem getD_hexValue?_lt (c : Char) : (hexValue? c).getD 0 < 16 := by
  cases h : hexValue? c with
  | none => decide
  | some d => exact hexValue?_lt h

/-- Four digits fill 16 bits at most. -/
theorem hexadecimalValue_lt {s : Text} (h : s.length ≤ 4) : hexadecimalValue s < 65536 := by
  unfold hexadecimalValue hexadecimalValueFrom
  rcases s with _ | ⟨a, _ | ⟨b, _ | ⟨c, _ | ⟨d, _ | ⟨e, s⟩⟩⟩⟩⟩
  case cons.cons.cons.cons.cons =>
    simp only [List.length_cons] at h
    omega
  case nil => decide
  all_goals
    have := getD_hexValue?_lt a
    simp only [List.foldl_cons, List.foldl_nil]
  · omega
  · have := getD_hexValue?_lt b
    omega
  · have := getD_hexValue?_lt b
    have := getD_hexValue?_lt c
    omega
  · have := getD_hexValue?_lt b
    have := getD_hexValue?_lt c
    have := getD_hexValue?_lt d
    omega

theorem decimalValueFrom_cons (n : Nat) (c : Char) (s : Text) :
    decimalValueFrom n (c :: s) = decimalValueFrom (n * 10 + digitValue c) s := by
  simp only [decimalValueFrom, List.foldl_cons]

/-- Further digits never lower the value. -/
theorem le_decimalValueFrom (n : Nat) (s : Text) : n ≤ decimalValueFrom n s := by
  induction s generalizing n with
  | nil => exact Nat.le_refl n
  | cons c s ih =>
    have := ih (n * 10 + digitValue c)
    rw [decimalValueFrom_cons]
    omega

end Text

namespace Ip

open Text

/-! ## The hexadecimal reader -/

theorem scanHexFrom_eq (room n : Nat) (s : Text) :
    scanHexFrom room (UInt32.ofNat n) s =
      if (s.takeWhile isHexDigit).length ≤ room then
        some (UInt32.ofNat (hexadecimalValueFrom n (s.takeWhile isHexDigit)),
          s.dropWhile isHexDigit)
      else none := by
  induction s generalizing room n with
  | nil => simp [scanHexFrom, hexadecimalValueFrom]
  | cons c s ih =>
    cases hc : hexValue? c with
    | none =>
      have hno : ¬ isHexDigit c = true := by simp [isHexDigit, hc]
      rw [List.takeWhile_cons_of_neg hno, List.dropWhile_cons_of_neg hno]
      cases room <;> simp [scanHexFrom, hc, hexadecimalValueFrom]
    | some d =>
      have hyes : isHexDigit c = true := by simp [isHexDigit, hc]
      rw [List.takeWhile_cons_of_pos hyes, List.dropWhile_cons_of_pos hyes,
        hexadecimalValueFrom_cons hc]
      cases room with
      | zero => simp [scanHexFrom, hc]
      | succ room =>
        have hnext : UInt32.ofNat n * 16 + UInt32.ofNat d = UInt32.ofNat (n * 16 + d) := by
          rw [UInt32.ofNat_add, UInt32.ofNat_mul]; rfl
        have hstep : scanHexFrom (room + 1) (UInt32.ofNat n) (c :: s) =
            scanHexFrom room (UInt32.ofNat n * 16 + UInt32.ofNat d) s := by
          simp [scanHexFrom, hc]
        rw [hstep, hnext, ih]
        simp only [List.length_cons, Nat.add_le_add_iff_right]

/-- **Hexadecimal runs.** The reader takes the run of hexadecimal digits in
front, one to four of them, and gives its value. -/
theorem scanHex?_eq (s : Text) :
    scanHex? s =
      if s.takeWhile isHexDigit ≠ [] ∧ (s.takeWhile isHexDigit).length ≤ 4 then
        some (UInt32.ofNat (hexadecimalValue (s.takeWhile isHexDigit)), s.dropWhile isHexDigit)
      else none := by
  cases s with
  | nil => rfl
  | cons c s =>
    by_cases hc : isHexDigit c = true
    · have hstep : scanHex? (c :: s) = scanHexFrom 4 (UInt32.ofNat 0) (c :: s) := if_pos hc
      rw [hstep, scanHexFrom_eq]
      have hne : (c :: s).takeWhile isHexDigit ≠ [] := by simp [hc]
      simp only [hne, ne_eq, not_false_eq_true, true_and]
      rfl
    · have hstep : scanHex? (c :: s) = none := if_neg hc
      rw [hstep, List.takeWhile_cons_of_neg hc]
      simp

/-! ## The decimal reader -/

theorem scanDecimalFrom_eq {n : Nat} (hn : n < decimalLimit.toNat) (s : Text) :
    scanDecimalFrom (UInt32.ofNat n) s =
      if decimalValueFrom n (s.takeWhile Char.isDigit) < decimalLimit.toNat then
        some (UInt32.ofNat (decimalValueFrom n (s.takeWhile Char.isDigit)),
          s.dropWhile Char.isDigit)
      else none := by
  induction s generalizing n with
  | nil => simp [scanDecimalFrom, decimalValueFrom, hn]
  | cons c s ih =>
    by_cases hc : c.isDigit = true
    · have hd := digitValue_lt hc
      have hlimit : decimalLimit.toNat = 16777215 := rfl
      have hnext : UInt32.ofNat n * 10 + UInt32.ofNat (digitValue c) =
          UInt32.ofNat (n * 10 + digitValue c) := by
        rw [UInt32.ofNat_add, UInt32.ofNat_mul]; rfl
      have hsmall : (UInt32.ofNat (n * 10 + digitValue c)).toNat = n * 10 + digitValue c := by
        rw [UInt32.toNat_ofNat']
        omega
      rw [List.takeWhile_cons_of_pos hc, List.dropWhile_cons_of_pos hc, decimalValueFrom_cons]
      unfold scanDecimalFrom
      simp only [hc, if_true, hnext, UInt32.le_iff_toNat_le, hsmall]
      by_cases hbig : decimalLimit.toNat ≤ n * 10 + digitValue c
      · -- The value only grows from here, so no run stays below the limit.
        have := le_decimalValueFrom (n * 10 + digitValue c) (s.takeWhile Char.isDigit)
        rw [if_pos hbig, if_neg (by omega)]
      · rw [if_neg hbig, ih (by omega)]
    · rw [List.takeWhile_cons_of_neg hc, List.dropWhile_cons_of_neg hc]
      simp [scanDecimalFrom, hc, decimalValueFrom, hn]

/-- **Decimal runs.** The reader takes the run of decimal digits in front, which
is not empty, and gives its value, provided that it is below `decimalLimit`. -/
theorem scanDecimal?_eq (s : Text) :
    scanDecimal? s =
      if s.takeWhile Char.isDigit ≠ [] ∧
          decimalValue (s.takeWhile Char.isDigit) < decimalLimit.toNat then
        some (UInt32.ofNat (decimalValue (s.takeWhile Char.isDigit)), s.dropWhile Char.isDigit)
      else none := by
  cases s with
  | nil => rfl
  | cons c s =>
    by_cases hc : c.isDigit = true
    · have hstep : scanDecimal? (c :: s) = scanDecimalFrom (UInt32.ofNat 0) (c :: s) := if_pos hc
      rw [hstep, scanDecimalFrom_eq (by decide)]
      have hne : (c :: s).takeWhile Char.isDigit ≠ [] := by simp [hc]
      simp only [hne, ne_eq, not_false_eq_true, true_and]
      rfl
    · have hstep : scanDecimal? (c :: s) = none := if_neg hc
      rw [hstep, List.takeWhile_cons_of_neg hc]
      simp

/-- A run of digits in front of what does not go on with it is read as a whole. -/
theorem scanDecimal?_append {run : Text} (hne : run ≠ []) (hdigits : ∀ c ∈ run, c.isDigit = true)
    (rest : Text) (hrest : ∀ c ∈ rest.head?, c.isDigit = false) :
    scanDecimal? (run ++ rest) =
      if decimalValue run < decimalLimit.toNat then some (UInt32.ofNat (decimalValue run), rest)
      else none := by
  obtain ⟨htake, hdrop⟩ := span_run hdigits hrest
  rw [scanDecimal?_eq, htake, hdrop]
  simp only [ne_eq, hne, not_false_eq_true, true_and]

end Ip
end NetDial
