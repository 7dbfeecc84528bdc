import NetDial.Proofs.Ip.ByIndex

/-!
# Scanners that may fault

The scanners of literals work in place, on bytes and with words of fixed size. In
this form each step says whether it can be done: looking at a byte needs an index
before the end, a difference must not be below zero, and a sum or a product must
fit its word. A step that cannot be done is a *fault* (`Stop.fault`), which is
something else than refusing what was read (`Stop.rejected`).

No scanner ever faults. In front of a digit the decimal scanner has a value below
its limit, so that one digit more fits 32 bits, and the hexadecimal scanner has one
that leaves room for the digits that may follow (`appendDigit_eq`).

**Results.**
* `decimalAt_eq`, `hexAt_eq`, `quad_eq`: the scanners in place are the readers of
  texts, and do not fault.
* `decimalAt_run`, `hexAt_run`: the exact value of a run of any length, or a
  refusal.
* `of_hexAt`: a hexadecimal value fits 16 bits, and the index moves forward.
-/
namespace NetDial

/-- Why reading ends without a result: the bytes are refused, or a step cannot be
done. -/
inductive Stop where
  | rejected
  | fault
  deriving DecidableEq, Repr

/-- A result of reading, unless it stops. -/
abbrev Checked :=
  Except Stop

namespace Checked

open Ip (tailAt indexOf)
open Text (ofBytes)

section
variable {α β : Type}

/-- Refuses what was read. -/
def reject : Checked α :=
  .error .rejected

/-- What a reader says that can only refuse. -/
def ofOption : Option α → Checked α
  | some a => .ok a
  | none => reject

@[simp] theorem ok_bind (a : α) (f : α → Checked β) : (Except.ok a >>= f : Checked β) = f a :=
  rfl

@[simp] theorem ofOption_some (a : α) : ofOption (some a) = .ok a :=
  rfl

@[simp] theorem ofOption_none : ofOption (none : Option α) = reject :=
  rfl

theorem ofOption_bind (o : Option α) (f : α → Option β) :
    ofOption (o.bind f) = ofOption o >>= fun a => ofOption (f a) := by
  cases o with
  | none => rfl
  | some a => rfl

theorem ofOption_eq_ok_iff {o : Option α} {a : α} : ofOption o = .ok a ↔ o = some a := by
  cases o with
  | none => simp [reject]
  | some b => simp

theorem bind_eq_ok_iff {x : Checked α} {f : α → Checked β} {b : β} :
    (x >>= f) = .ok b ↔ ∃ a, x = .ok a ∧ f a = .ok b := by
  cases x with
  | error e => simp [bind, Except.bind]
  | ok a => simp

end

/-! ## Steps that may fault -/

/-- A number that must fit a word. -/
def fits (size n : Nat) : Checked Nat :=
  if n < size then .ok n else .error .fault

/-- A difference that must not be below zero. -/
def minus (m n : Nat) : Checked Nat :=
  if n ≤ m then .ok (m - n) else .error .fault

/-- The byte at an index, as a character. -/
def charAt (s : List UInt8) (i : Nat) : Checked Char :=
  match s[i]? with
  | some b => .ok (Char.ofNat b.toNat)
  | none => .error .fault

/-- The value in a 32-bit word when one more digit is read behind it. -/
def appendDigit (base n d : Nat) : Checked Nat := do
  let product ← fits UInt32.size (n * base)
  fits UInt32.size (product + d)

variable {s : List UInt8} {i : Nat}

theorem fits_of_lt {size n : Nat} (h : n < size) : fits size n = .ok n :=
  if_pos h

theorem minus_of_le {m n : Nat} (h : n ≤ m) : minus m n = .ok (m - n) :=
  if_pos h

theorem charAt_of_lt (h : i < s.length) : charAt s i = .ok (Char.ofNat s[i].toNat) := by
  rw [charAt, List.getElem?_eq_getElem h]

theorem appendDigit_eq {base n d : Nat} (h : n * base + d < UInt32.size) :
    appendDigit base n d = .ok (n * base + d) := by
  have hproduct : n * base < UInt32.size := by omega
  rw [appendDigit, fits_of_lt hproduct, ok_bind, fits_of_lt h]

/-- A word with one more digit behind it, if that fits. -/
theorem toNat_append {n : UInt32} {base d : Nat} (h : n.toNat * base + d < UInt32.size) :
    (n * UInt32.ofNat base + UInt32.ofNat d).toNat = n.toNat * base + d := by
  have hsize : UInt32.size = 4294967296 := rfl
  have hword : n * UInt32.ofNat base + UInt32.ofNat d = UInt32.ofNat (n.toNat * base + d) := by
    rw [UInt32.ofNat_add, UInt32.ofNat_mul, UInt32.ofNat_toNat]
  rw [hword, UInt32.toNat_ofNat']
  omega

/-! ## Decimal digits -/

/-- The value of a decimal digit. -/
def decimalDigit (c : Char) : Checked Nat :=
  minus c.toNat '0'.toNat

/-- Reads decimal digits from an index on, `n` being the value so far, and gives
the index of the first byte that is none. -/
def decimalFrom (s : List UInt8) (n i : Nat) : Checked (Nat × Nat) :=
  if h : i < s.length then do
    let c ← charAt s i
    if c.isDigit then
      let d ← decimalDigit c
      let m ← appendDigit 10 n d
      if Ip.decimalLimit.toNat ≤ m then reject else decimalFrom s m (i + 1)
    else return (n, i)
  else return (n, i)
termination_by s.length - i

/-- The value of the run of decimal digits at an index and the index behind the
run. -/
def decimalAt (s : List UInt8) (start : Nat) : Checked (Nat × Nat) := do
  let (n, stop) ← decimalFrom s 0 start
  if stop = start then reject else return (n, stop)

theorem decimalDigit_eq {c : Char} (h : c.isDigit = true) :
    decimalDigit c = .ok (Text.digitValue c) :=
  minus_of_le (Text.toNat_of_isDigit h).1

/-- A digit behind a value below the limit is read without a fault. -/
theorem decimalFrom_digit {n : Nat} (hn : n < Ip.decimalLimit.toNat) (hi : i < s.length)
    (hc : (Char.ofNat s[i].toNat).isDigit = true) :
    decimalFrom s n i =
      if Ip.decimalLimit.toNat ≤ n * 10 + Text.digitValue (Char.ofNat s[i].toNat) then reject
      else decimalFrom s (n * 10 + Text.digitValue (Char.ofNat s[i].toNat)) (i + 1) := by
  have hlimit : Ip.decimalLimit.toNat = 16777215 := rfl
  have hsize : UInt32.size = 4294967296 := rfl
  have hd := Text.digitValue_lt hc
  rw [decimalFrom, dif_pos hi, charAt_of_lt hi, ok_bind, if_pos hc, decimalDigit_eq hc, ok_bind,
    appendDigit_eq (by omega), ok_bind]

theorem toNat_append_decimal {n : UInt32} (hn : n.toNat < Ip.decimalLimit.toNat) {c : Char}
    (hc : c.isDigit = true) :
    (n * 10 + UInt32.ofNat (Text.digitValue c)).toNat = n.toNat * 10 + Text.digitValue c := by
  have hlimit : Ip.decimalLimit.toNat = 16777215 := rfl
  have hsize : UInt32.size = 4294967296 := rfl
  have hd := Text.digitValue_lt hc
  have hfits : n.toNat * 10 + Text.digitValue c < UInt32.size := by omega
  exact toNat_append hfits

theorem decimalFrom_eq {n : UInt32} (hn : n.toNat < Ip.decimalLimit.toNat) :
    decimalFrom s n.toNat i =
      ofOption ((Ip.scanDecimalFromAt s n i).map fun p => (p.1.toNat, p.2)) := by
  fun_induction Ip.scanDecimalFromAt s n i with
  | case1 n i hi c hc m hm =>
    rw [UInt32.le_iff_toNat_le, toNat_append_decimal hn hc] at hm
    rw [decimalFrom_digit hn hi hc, if_pos hm]
    rfl
  | case2 n i hi c hc m hm ih =>
    rw [UInt32.le_iff_toNat_le] at hm
    have hvalue : m.toNat = n.toNat * 10 + Text.digitValue c := toNat_append_decimal hn hc
    rw [← ih (Nat.lt_of_not_le hm), decimalFrom_digit hn hi hc, ← hvalue, if_neg hm]
  | case3 n i hi c hc =>
    rw [decimalFrom, dif_pos hi, charAt_of_lt hi, ok_bind, if_neg hc]
    rfl
  | case4 n i hi =>
    rw [decimalFrom, dif_neg hi]
    rfl

/-- **Decimal digits in place.** The scanner reads what the reader of runs does. -/
theorem decimalAt_eq (s : List UInt8) (i : Nat) :
    decimalAt s i = ofOption ((Ip.scanDecimalAt? s i).map fun p => (p.1.toNat, p.2)) := by
  have hfrom : decimalFrom s 0 i = _ := decimalFrom_eq (n := 0) (by decide)
  unfold decimalAt Ip.scanDecimalAt?
  rw [hfrom]
  cases Ip.scanDecimalFromAt s 0 i with
  | none => rfl
  | some p =>
    simp only [Option.map_some, ofOption_some, ok_bind]
    split
    · rfl
    · rfl

/-- The run of such characters that stands at an index. -/
def runAt (p : Char → Bool) (s : List UInt8) (i : Nat) : Text :=
  (tailAt s i).takeWhile p

/-- The index behind a run that stands at an index. -/
theorem indexOf_dropWhile (p : Char → Bool) (h : i ≤ s.length) :
    indexOf s ((tailAt s i).dropWhile p) = i + ((tailAt s i).takeWhile p).length := by
  have hlen := congrArg List.length (List.takeWhile_append_dropWhile (p := p) (l := tailAt s i))
  rw [List.length_append, tailAt, Text.length_ofBytes, List.length_drop] at hlen
  unfold indexOf tailAt
  omega

/-- A run of any length is read as its value, or refused because that reaches the
limit. -/
theorem decimalAt_run (h : i ≤ s.length) :
    decimalAt s i =
      if runAt Char.isDigit s i ≠ [] ∧
          Text.decimalValue (runAt Char.isDigit s i) < Ip.decimalLimit.toNat then
        .ok (Text.decimalValue (runAt Char.isDigit s i), i + (runAt Char.isDigit s i).length)
      else reject := by
  have hlimit : Ip.decimalLimit.toNat = 16777215 := rfl
  have hsize : UInt32.size = 4294967296 := rfl
  unfold runAt
  rw [decimalAt_eq, Ip.scanDecimalAt?_eq h, Ip.scanDecimal?_eq]
  split
  · rename_i hrun
    have hfits : Text.decimalValue ((tailAt s i).takeWhile Char.isDigit) < UInt32.size := by omega
    simp only [Option.map_some, ofOption_some]
    rw [UInt32.toNat_ofNat_of_lt' hfits, indexOf_dropWhile _ h]
  · rfl

/-! ## Hexadecimal digits -/

/-- The value of a hexadecimal digit of either case. -/
def hexDigit (c : Char) : Checked (Option Nat) := do
  if '0' ≤ c ∧ c ≤ '9' then
    let d ← minus c.toNat '0'.toNat
    return some d
  else if 'a' ≤ c ∧ c ≤ 'f' then
    let d ← minus c.toNat 'a'.toNat
    let d ← fits UInt8.size (d + 10)
    return some d
  else if 'A' ≤ c ∧ c ≤ 'F' then
    let d ← minus c.toNat 'A'.toNat
    let d ← fits UInt8.size (d + 10)
    return some d
  else return none

/-- Reads hexadecimal digits from an index on, `n` being the value of those since
`start`, and gives the index of the first byte that is none. A fifth digit is
refused. -/
def hexFrom (s : List UInt8) (start n i : Nat) : Checked (Nat × Nat) :=
  if _ : i < s.length then do
    let c ← charAt s i
    match ← hexDigit c with
    | none => return (n, i)
    | some d =>
      let read ← minus i start
      if read = 4 then reject
      else
        let m ← appendDigit 16 n d
        hexFrom s start m (i + 1)
  else return (n, i)
termination_by s.length - i

/-- The value of the run of hexadecimal digits at an index and the index behind
the run. -/
def hexAt (s : List UInt8) (start : Nat) : Checked (Nat × Nat) := do
  let (n, stop) ← hexFrom s start 0 start
  if stop = start then reject else return (n, stop)

theorem hexDigit_eq (c : Char) : hexDigit c = .ok (Text.hexValue? c) := by
  have hc : c.toNat = c.val.toNat := rfl
  have hsize : UInt8.size = 256 := rfl
  unfold hexDigit Text.hexValue?
  simp only [Char.le_def, UInt32.le_iff_toNat_le, Char.reduceVal, UInt32.reduceToNat,
    Char.reduceToNat]
  split
  · rw [minus_of_le (by omega), ok_bind]
    rfl
  · split
    · rw [minus_of_le (by omega), ok_bind, fits_of_lt (by omega), ok_bind]
      rfl
    · split
      · rw [minus_of_le (by omega), ok_bind, fits_of_lt (by omega), ok_bind]
        rfl
      · rfl

theorem toNat_hexadecimal {read : Text} (h : read.length ≤ 4) :
    (UInt32.ofNat (Text.hexadecimalValue read)).toNat = Text.hexadecimalValue read := by
  have hsize : UInt32.size = 4294967296 := rfl
  have hvalue := Text.hexadecimalValue_lt h
  exact UInt32.toNat_ofNat_of_lt' (by omega)

/-- One more digit behind fewer than four fits the word, so the sum of words is the
word of the sum. -/
theorem append_hexadecimal {read : Text} (hread : read.length < 4) {c : Char} {d : Nat}
    (hc : Text.hexValue? c = some d) :
    appendDigit 16 (Text.hexadecimalValue read) d =
        .ok (Text.hexadecimalValue (read ++ [c])) ∧
      UInt32.ofNat (Text.hexadecimalValue read) * 16 + UInt32.ofNat d =
        UInt32.ofNat (Text.hexadecimalValue (read ++ [c])) := by
  have hsize : UInt32.size = 4294967296 := rfl
  have hvalue := Text.hexadecimalValue_lt (Nat.le_of_lt hread)
  have hd := Text.hexValue?_lt hc
  rw [Text.hexadecimalValue_concat hc, appendDigit_eq (by omega), UInt32.ofNat_add,
    UInt32.ofNat_mul]
  exact ⟨rfl, rfl⟩

theorem hexFrom_of_le {start n : Nat} (h : s.length ≤ i) : hexFrom s start n i = .ok (n, i) := by
  rw [hexFrom, dif_neg (Nat.not_lt_of_le h)]
  rfl

theorem hexFrom_of_lt {start n : Nat} (h : i < s.length) :
    hexFrom s start n i =
      match Text.hexValue? (Char.ofNat s[i].toNat) with
      | none => .ok (n, i)
      | some d => minus i start >>= fun read =>
        if read = 4 then reject
        else appendDigit 16 n d >>= fun m => hexFrom s start m (i + 1) := by
  rw [hexFrom, dif_pos h, charAt_of_lt h, ok_bind, hexDigit_eq, ok_bind]
  rfl

/-- The value so far is that of the digits that were read, at most four. The
induction is on what stands behind them. -/
theorem hexFrom_eq {start : Nat} {read t : Text} (hread : read.length ≤ 4)
    (h : start + read.length ≤ s.length) (ht : tailAt s (start + read.length) = t) :
    hexFrom s start (Text.hexadecimalValue read) (start + read.length) =
      ofOption ((Ip.scanHexFrom (4 - read.length)
        (UInt32.ofNat (Text.hexadecimalValue read)) t).map fun p => (p.1.toNat, indexOf s p.2)) := by
  have hindex := Ip.indexOf_tailAt h
  rw [ht] at hindex
  induction t generalizing read with
  | nil =>
    have hend : s.length ≤ start + read.length := by
      have := congrArg List.length ht
      simp [tailAt, Text.length_ofBytes] at this
      omega
    rw [hexFrom_of_le hend]
    simp [Ip.scanHexFrom, toNat_hexadecimal hread, hindex]
  | cons c t ih =>
    have hlt : start + read.length < s.length := by
      have := congrArg List.length ht
      simp [tailAt, Text.length_ofBytes] at this
      omega
    rw [Ip.tailAt_of_lt hlt, List.cons.injEq] at ht
    rw [hexFrom_of_lt hlt, ht.1]
    cases hc : Text.hexValue? c with
    | none => simp [Ip.scanHexFrom, hc, toNat_hexadecimal hread, hindex]
    | some d =>
      simp only
      rw [minus_of_le (Nat.le_add_right _ _), ok_bind, Nat.add_sub_cancel_left]
      by_cases hfour : read.length = 4
      · simp [hfour, Ip.scanHexFrom, hc]
      · have hless : read.length < 4 := by omega
        obtain ⟨happend, hnext⟩ := append_hexadecimal hless hc
        have hlen : start + read.length + 1 = start + (read ++ [c]).length := by simp; omega
        have hroom : 4 - read.length = 4 - (read ++ [c]).length + 1 := by simp; omega
        have hread' : (read ++ [c]).length ≤ 4 := by simp; omega
        have hend : start + (read ++ [c]).length ≤ s.length := by omega
        have htail : tailAt s (start + (read ++ [c]).length) = t := hlen ▸ ht.2
        have hstep : Ip.scanHexFrom (4 - read.length)
            (UInt32.ofNat (Text.hexadecimalValue read)) (c :: t) =
            Ip.scanHexFrom (4 - (read ++ [c]).length)
              (UInt32.ofNat (Text.hexadecimalValue (read ++ [c]))) t := by
          rw [hroom]
          simp [Ip.scanHexFrom, hc, hnext]
        rw [if_neg hfour, happend, ok_bind, hstep, hlen]
        exact ih hread' hend htail (htail ▸ Ip.indexOf_tailAt hend)

/-- The reader of groups leaves a proper end of the text, and its value fits 16
bits. -/
theorem of_scanHex? {t rest : Text} {n : UInt32} (h : Ip.scanHex? t = some (n, rest)) :
    rest <:+ t ∧ rest.length < t.length ∧ n.toNat < UInt16.size := by
  rw [Ip.scanHex?_eq, Option.ite_none_right_eq_some, Option.some.injEq, Prod.mk.injEq] at h
  obtain ⟨⟨hrun, hshort⟩, rfl, rfl⟩ := h
  obtain ⟨hsuffix, hlength⟩ := Ip.dropWhile_proper hrun
  refine ⟨hsuffix, hlength, ?_⟩
  rw [toNat_hexadecimal hshort]
  exact Text.hexadecimalValue_lt hshort

/-- **Hexadecimal digits in place.** The scanner reads what the reader of groups
does. -/
theorem hexAt_eq (s : List UInt8) (i : Nat) :
    hexAt s i = ofOption ((Ip.scanHex? (tailAt s i)).map fun p => (p.1.toNat, indexOf s p.2)) := by
  unfold hexAt
  rcases Nat.lt_or_ge i s.length with hi | hi
  · have hread : hexFrom s i (Text.hexadecimalValue []) (i + ([] : Text).length) = _ :=
      hexFrom_eq (Nat.zero_le 4) (Nat.le_of_lt hi) rfl
    have hindex := Ip.indexOf_tailAt (Nat.le_of_lt hi)
    have hlong := (Ip.tailAt_suffix s i).length_le
    rw [Text.length_ofBytes] at hlong
    have hzero : Text.hexadecimalValue [] = 0 := rfl
    simp only [List.length_nil, Nat.add_zero, Nat.sub_zero, hzero] at hread
    rw [hread]
    generalize hchar : Char.ofNat s[i].toNat = c
    rw [Ip.tailAt_of_lt hi, hchar] at hindex hlong ⊢
    cases hc : Text.hexValue? c with
    | none =>
      simp [Ip.scanHexFrom, Ip.scanHex?, hc, hindex]
    | some d =>
      have hscan : Ip.scanHexFrom 4 0 (c :: tailAt s (i + 1)) =
          Ip.scanHex? (c :: tailAt s (i + 1)) := by
        simp [Ip.scanHex?, hc]
      have hword : UInt32.ofNat 0 = 0 := rfl
      rw [hword, hscan]
      cases hsome : Ip.scanHex? (c :: tailAt s (i + 1)) with
      | none => rfl
      | some p =>
        obtain ⟨n, rest⟩ := p
        obtain ⟨-, hshort, -⟩ := of_scanHex? hsome
        have hstop : indexOf s rest ≠ i := by
          unfold indexOf at hindex ⊢
          omega
        simp [hstop, pure, Except.pure]
  · rw [hexFrom_of_le hi, Ip.tailAt_of_le hi]
    simp [Ip.scanHex?]

/-- A run of one to four digits is read as its value. -/
theorem hexAt_run (h : i ≤ s.length) :
    hexAt s i =
      if runAt Text.isHexDigit s i ≠ [] ∧ (runAt Text.isHexDigit s i).length ≤ 4 then
        .ok (Text.hexadecimalValue (runAt Text.isHexDigit s i),
          i + (runAt Text.isHexDigit s i).length)
      else reject := by
  unfold runAt
  rw [hexAt_eq, Ip.scanHex?_eq]
  split
  · rename_i hrun
    simp only [Option.map_some, ofOption_some]
    rw [toNat_hexadecimal hrun.2, indexOf_dropWhile _ h]
  · rfl

/-- What is read in place is read from what stands there, fits 16 bits and moves
the index forward. -/
theorem of_hexAt {n stop : Nat} (h : hexAt s i = .ok (n, stop)) :
    n < UInt16.size ∧ i < stop ∧ stop ≤ s.length := by
  rw [hexAt_eq, ofOption_eq_ok_iff, Option.map_eq_some_iff] at h
  obtain ⟨p, hscan, heq⟩ := h
  obtain ⟨rfl, rfl⟩ := Prod.mk.inj heq
  obtain ⟨-, hshort, hfits⟩ := of_scanHex? hscan
  rw [tailAt, Text.length_ofBytes, List.length_drop] at hshort
  refine ⟨hfits, ?_, Nat.sub_le _ _⟩
  unfold indexOf
  omega

/-! ## Dotted quads -/

/-- Reads the octet that stands at an index, or behind a dot there. -/
def octetAt (s : List UInt8) (dotted : Bool) (i : Nat) : Checked (UInt8 × Nat) :=
  if s.length ≤ i then reject
  else do
    if dotted then
      let c ← charAt s i
      if c = '.' then value (i + 1) else reject
    else value i
where
  value (start : Nat) : Checked (UInt8 × Nat) := do
    let (n, next) ← decimalAt s start
    if n ≤ 255 then return (UInt8.ofNat n, next) else reject

/-- The address that the bytes of a dotted quad stand for. -/
def quad (s : List UInt8) : Checked Ipv4 := do
  let (a, i) ← octetAt s false 0
  let (b, i) ← octetAt s true i
  let (c, i) ← octetAt s true i
  let (d, i) ← octetAt s true i
  if i = s.length then return ⟨a, b, c, d⟩ else reject

theorem octetAt_value_eq (s : List UInt8) (i : Nat) :
    octetAt.value s i = ofOption (Ipv4.scanOctetAt? s i) := by
  unfold octetAt.value Ipv4.scanOctetAt?
  rw [decimalAt_eq]
  cases Ip.scanDecimalAt? s i with
  | none => rfl
  | some p =>
    obtain ⟨n, next⟩ := p
    have hle : n ≤ 255 ↔ n.toNat ≤ 255 := UInt32.le_iff_toNat_le
    simp only [Option.map_some, ofOption_some, ok_bind, hle]
    split
    · rfl
    · rfl

theorem octetAt_eq (s : List UInt8) (dotted : Bool) (i : Nat) :
    octetAt s dotted i = ofOption (Ipv4.scanNextAt? s dotted i) := by
  unfold octetAt Ipv4.scanNextAt?
  by_cases hi : i < s.length
  · rw [if_neg (Nat.not_le_of_lt hi), dif_pos hi]
    cases dotted with
    | false => exact octetAt_value_eq s i
    | true =>
      simp only [if_true]
      rw [charAt_of_lt hi, ok_bind]
      split
      · exact octetAt_value_eq s (i + 1)
      · rfl
  · rw [if_pos (Nat.le_of_not_lt hi), dif_neg hi]
    rfl

/-- **Quads in place.** The scanner reads what the reader of quads does. -/
theorem quad_eq (s : List UInt8) : quad s = ofOption (Ipv4.parse? (ofBytes s)) := by
  rw [← Ipv4.parseBytes?_eq]
  unfold quad Ipv4.parseBytes?
  simp only [octetAt_eq, Option.bind_eq_bind, ofOption_bind, apply_ite ofOption, ofOption_some,
    ofOption_none]
  rfl

end Checked
end NetDial
