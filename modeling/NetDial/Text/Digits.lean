import NetDial.Text.Basic

/-!
# Digits

Decimal and hexadecimal digits: their values, the shortest text of a number in
either base, and the number a run of digits stands for.

**Results.**
* `decimalValue_decimal`: the decimal text of a number stands for it.
* `decimal_isDigit`, `decimal_ne_nil`, `isDecimal_decimal`: that text is a non-empty
  run of digits.
-/
namespace NetDial.Text

/-- The value of a decimal digit. -/
def digitValue (c : Char) : Nat :=
  c.toNat - '0'.toNat

/-- The value of a hexadecimal digit of either case. -/
def hexValue? (c : Char) : Option Nat :=
  if '0' ≤ c ∧ c ≤ '9' then some (c.toNat - '0'.toNat)
  else if 'a' ≤ c ∧ c ≤ 'f' then some (c.toNat - 'a'.toNat + 10)
  else if 'A' ≤ c ∧ c ≤ 'F' then some (c.toNat - 'A'.toNat + 10)
  else none

/-- A non-empty run of decimal digits. -/
def isDecimal (s : Text) : Bool :=
  !s.isEmpty && s.all Char.isDigit

/-- The number that a run of decimal digits stands for, `n` being what was read
before it. -/
def decimalValueFrom (n : Nat) (s : Text) : Nat :=
  s.foldl (fun n c => n * 10 + digitValue c) n

/-- The number that a run of decimal digits stands for. -/
def decimalValue (s : Text) : Nat :=
  decimalValueFrom 0 s

/-- The shortest text of `n` in base `base`, with small letters from ten on. -/
def numeral (base : Nat) (h : 2 ≤ base) (n : Nat) : Text :=
  if n < base then [Nat.digitChar n]
  else numeral base h (n / base) ++ [Nat.digitChar (n % base)]
termination_by n
decreasing_by exact Nat.div_lt_self (by omega) (by omega)

/-- The decimal text of `n`. -/
def decimal (n : Nat) : Text :=
  numeral 10 (by decide) n

/-- The hexadecimal text of `n`. -/
def hexadecimal (n : Nat) : Text :=
  numeral 16 (by decide) n

/-- `s` made at least `width` characters long with zeros in front. -/
def padZeros (width : Nat) (s : Text) : Text :=
  List.replicate (width - s.length) '0' ++ s

theorem digitChar_isDigit : ∀ n, n < 10 → (Nat.digitChar n).isDigit = true := by decide

theorem digitValue_digitChar : ∀ n, n < 10 → digitValue (Nat.digitChar n) = n := by decide

theorem decimal_isDigit (n : Nat) : ∀ c ∈ decimal n, c.isDigit = true := by
  induction n using Nat.strongRecOn with
  | _ n ih =>
    intro c hc
    unfold decimal numeral at hc
    split at hc
    · simp only [List.mem_singleton] at hc
      exact hc ▸ digitChar_isDigit n ‹_›
    · rcases List.mem_append.1 hc with h | h
      · exact ih (n / 10) (by omega) c h
      · simp only [List.mem_singleton] at h
        exact h ▸ digitChar_isDigit _ (by omega)

theorem decimal_ne_nil (n : Nat) : decimal n ≠ [] := by
  unfold decimal numeral
  split <;> simp

theorem isDecimal_decimal (n : Nat) : isDecimal (decimal n) = true := by
  have hne := decimal_ne_nil n
  have hdigits := decimal_isDigit n
  simpa [isDecimal, hne] using hdigits

theorem decimalValueFrom_append (n : Nat) (s t : Text) :
    decimalValueFrom n (s ++ t) = decimalValueFrom (decimalValueFrom n s) t := by
  simp [decimalValueFrom]

theorem decimalValue_decimal (n : Nat) : decimalValue (decimal n) = n := by
  induction n using Nat.strongRecOn with
  | _ n ih =>
    unfold decimal numeral
    split
    · simp [decimalValue, decimalValueFrom, digitValue_digitChar n ‹_›]
    · have := ih (n / 10) (by omega)
      unfold decimalValue decimal at this
      unfold decimalValue
      rw [decimalValueFrom_append, this]
      simp only [decimalValueFrom, List.foldl_cons, List.foldl_nil]
      rw [digitValue_digitChar _ (by omega)]
      omega

end NetDial.Text
