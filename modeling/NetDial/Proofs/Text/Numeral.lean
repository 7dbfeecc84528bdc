import Mathlib.Algebra.Group.Nat.Defs
import Mathlib.Data.List.Induction
import NetDial.Proofs.Ip.Scan

/-!
# Numerals

The shortest text of a number in a base, as the digit readers see it: its
characters are digits of the base, it has no more of them than the number needs,
and it stands for the number.

**Results.**
* `numeral_digits`, `numeral_length_le`: which characters a numeral has and how
  many.
* `foldl_numeral`: a numeral stands for its number.
* `hexadecimalValue_hexadecimal`: the case of base 16, which the readers of IP
  literals use.
* `decimal_of_leading`: in base 10, only zero has a zero in front.
* `eq_zeros_append_decimal`: a run of decimal digits is the numeral of its value
  with zeros in front.
-/
namespace NetDial.Text

variable {base : Nat} (h : 2 ≤ base)

theorem numeral_of_lt {n : Nat} (hn : n < base) : numeral base h n = [Nat.digitChar n] := by
  rw [numeral, if_pos hn]

theorem numeral_of_le {n : Nat} (hn : base ≤ n) :
    numeral base h n = numeral base h (n / base) ++ [Nat.digitChar (n % base)] := by
  rw [numeral, if_neg (Nat.not_lt.2 hn)]

theorem numeral_ne_nil (n : Nat) : numeral base h n ≠ [] := by
  rcases Nat.lt_or_ge n base with hn | hn
  · simp [numeral_of_lt h hn]
  · simp [numeral_of_le h hn]

/-- Every character of a numeral is a digit of the base. -/
theorem numeral_digits (n : Nat) : ∀ c ∈ numeral base h n, ∃ d < base, c = Nat.digitChar d := by
  induction n using Nat.strongRecOn with
  | _ n ih =>
    intro c hc
    rcases Nat.lt_or_ge n base with hn | hn
    · rw [numeral_of_lt h hn, List.mem_singleton] at hc
      exact ⟨n, hn, hc⟩
    · rw [numeral_of_le h hn, List.mem_append, List.mem_singleton] at hc
      rcases hc with hc | hc
      · exact ih (n / base) (Nat.div_lt_self (by omega) (by omega)) c hc
      · exact ⟨n % base, Nat.mod_lt n (by omega), hc⟩

/-- A number below the power `k + 1` of the base has at most `k + 1` digits. -/
theorem numeral_length_le (k : Nat) {n : Nat} (hn : n < base ^ (k + 1)) :
    (numeral base h n).length ≤ k + 1 := by
  induction k generalizing n with
  | zero =>
    rw [numeral_of_lt h (by simpa using hn)]
    exact Nat.le_refl 1
  | succ k ih =>
    rcases Nat.lt_or_ge n base with hlt | hle
    · simp [numeral_of_lt h hlt]
    · have hdiv : n / base < base ^ (k + 1) :=
        Nat.div_lt_of_lt_mul (by rwa [Nat.pow_succ, Nat.mul_comm] at hn)
      have := ih hdiv
      rw [numeral_of_le h hle, List.length_append, List.length_singleton]
      omega

/-- Reading the digits of a numeral one after the other gives its number. -/
theorem foldl_numeral {value : Char → Nat} (hvalue : ∀ d < base, value (Nat.digitChar d) = d)
    (n : Nat) : (numeral base h n).foldl (fun m c => m * base + value c) 0 = n := by
  induction n using Nat.strongRecOn with
  | _ n ih =>
    rcases Nat.lt_or_ge n base with hn | hn
    · simp [numeral_of_lt h hn, hvalue n hn]
    · have hmod : n % base < base := Nat.mod_lt n (by omega)
      have hless : n / base < n := Nat.div_lt_self (by omega) (by omega)
      rw [numeral_of_le h hn, List.foldl_append, ih (n / base) hless]
      simp only [List.foldl_cons, List.foldl_nil, hvalue _ hmod]
      exact Nat.div_add_mod' n base

/-! ## Base 16 -/

theorem hexValue?_digitChar : ∀ d < 16, hexValue? (Nat.digitChar d) = some d := by decide

theorem hexadecimal_isHexDigit (n : Nat) : ∀ c ∈ hexadecimal n, isHexDigit c = true := by
  intro c hc
  obtain ⟨d, hd, rfl⟩ := numeral_digits _ n c hc
  simp [isHexDigit, hexValue?_digitChar d hd]

theorem hexadecimalValue_hexadecimal (n : Nat) : hexadecimalValue (hexadecimal n) = n :=
  foldl_numeral _ (fun d hd => by rw [hexValue?_digitChar d hd]; rfl) n

theorem hexadecimal_length_le {n : Nat} (hn : n < 65536) : (hexadecimal n).length ≤ 4 :=
  numeral_length_le _ 3 hn

/-! ## Base 10 -/

theorem decimal_length_le {n : Nat} (hn : n < 1000) : (decimal n).length ≤ 3 :=
  numeral_length_le _ 2 hn

theorem decimal_head {n : Nat} (hn : n ≠ 0) : (decimal n).head? ≠ some '0' := by
  induction n using Nat.strongRecOn with
  | _ n ih =>
    rcases Nat.lt_or_ge n 10 with hlt | hge
    · have hdigit : ∀ d < 10, d ≠ 0 → Nat.digitChar d ≠ '0' := by decide
      rw [decimal, numeral_of_lt _ hlt]
      exact fun hzero => hdigit n hlt hn (Option.some.inj hzero)
    · have hrest := ih (n / 10) (by omega) (by omega)
      obtain ⟨c, s, hcons⟩ := List.exists_cons_of_ne_nil (decimal_ne_nil (n / 10))
      rw [hcons] at hrest
      rw [decimal, numeral_of_le _ hge, ← decimal, hcons]
      exact hrest

/-- Only zero is written with a zero in front. -/
theorem decimal_of_leading {n : Nat} (h : (decimal n).head? = some '0') : decimal n = ['0'] := by
  have hzero : n = 0 := Classical.byContradiction fun hn => decimal_head hn h
  rw [hzero, decimal, numeral_of_lt _ (by decide)]
  rfl

theorem digitChar_digitValue {c : Char} (hc : c.isDigit = true) :
    Nat.digitChar (digitValue c) = c := by
  have hrange := toNat_of_isDigit hc
  apply Char.ext
  apply UInt32.toNat_inj.1
  show (Nat.digitChar (digitValue c)).toNat = c.toNat
  rw [Nat.toNat_digitChar_of_lt_ten (digitValue_lt hc)]
  show 48 + (c.toNat - 48) = c.toNat
  omega

theorem decimal_digitValue {c : Char} (hc : c.isDigit = true) : decimal (digitValue c) = [c] := by
  rw [decimal, numeral_of_lt _ (digitValue_lt hc), digitChar_digitValue hc]

theorem decimalValue_concat (s : Text) (c : Char) :
    decimalValue (s ++ [c]) = decimalValue s * 10 + digitValue c :=
  decimalValueFrom_append 0 s [c]

/-- Zeros in front do not count. -/
theorem decimalValue_zeros_append (k : Nat) (s : Text) :
    decimalValue (List.replicate k '0' ++ s) = decimalValue s := by
  induction k with
  | zero => rfl
  | succ k ih => exact ih

/-- A run of digits has no other form than the numeral of its value with zeros in
front. -/
theorem eq_zeros_append_decimal {s : Text} (hne : s ≠ []) (hdigits : ∀ c ∈ s, c.isDigit = true) :
    ∃ k, s = List.replicate k '0' ++ decimal (decimalValue s) := by
  -- The numeral of a number has its last digit last, so digits are added at the end.
  induction s using List.reverseRecOn with
  | nil => exact absurd rfl hne
  | append_singleton s c ih =>
    have hc : c.isDigit = true := hdigits c (by simp)
    have hlt := digitValue_lt hc
    rw [decimalValue_concat]
    by_cases hs : s = []
    · refine ⟨0, ?_⟩
      rw [hs]
      simp [decimalValue, decimalValueFrom, decimal_digitValue hc]
    obtain ⟨k, hk⟩ := ih hs fun d hd => hdigits d (List.mem_append_left _ hd)
    by_cases hzero : decimalValue s = 0
    · have hzeros : s = List.replicate (k + 1) '0' := by
        rw [hzero, decimal, numeral_of_lt _ (by decide)] at hk
        rw [hk, List.replicate_succ']
        rfl
      refine ⟨k + 1, ?_⟩
      rw [hzero, Nat.zero_mul, Nat.zero_add, decimal_digitValue hc, ← hzeros]
    · have hdiv : (decimalValue s * 10 + digitValue c) / 10 = decimalValue s := by omega
      have hmod : (decimalValue s * 10 + digitValue c) % 10 = digitValue c := by omega
      refine ⟨k, ?_⟩
      rw [decimal, numeral_of_le _ (by omega), hdiv, hmod, digitChar_digitValue hc, ← decimal,
        ← List.append_assoc, ← hk]

theorem not_mem_decimal (n : Nat) {c : Char} (hc : c.isDigit = false) : c ∉ decimal n := by
  intro hmem
  rw [decimal_isDigit n c hmem] at hc
  cases hc

end NetDial.Text
