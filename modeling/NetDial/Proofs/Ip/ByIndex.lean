import NetDial.Proofs.Ip.DottedQuad
import NetDial.Proofs.Text.Bytes
import NetDial.Proofs.Text.Numeral

/-!
# Dotted quads by index

The bytes of a dotted quad can be read in place, with an index that goes on from
octet to octet: over a run of digits, then over the dot in front of the next run.
`Ipv4.parseBytes?` does so. It looks at a byte only where the index is before the
end.

What stands from an index on, as a text, is what the reader of quads has left
(`tailAt`). Both readers keep that in step, and so accept the same.

**Results.**
* `scanDecimalAt?_eq`: the run of digits at an index.
* `scanNextAt?_eq`: one octet, with the dot in front of it.
* `parseBytes?_eq`: a quad in any byte string.
* `isOctet_iff`: an octet has any number of zeros in front, and is otherwise
  written in one way.
* `isDottedQuad_iff_zeros`: a quad is the text of an address with zeros put in.
* `reads_exactly_quads`: which texts are read, and as which address.
-/
namespace NetDial

namespace Ip

open Text (ofBytes length_ofBytes)

/-- What stands from an index on. -/
def tailAt (s : List UInt8) (i : Nat) : Text :=
  ofBytes (s.drop i)

/-- The index from which on `rest` stands. -/
def indexOf (s : List UInt8) (rest : Text) : Nat :=
  s.length - rest.length

/-- Reads decimal digits from an index on, `n` being the value so far, and gives
the index of the first byte that is none. -/
def scanDecimalFromAt (s : List UInt8) (n : UInt32) (i : Nat) : Option (UInt32 × Nat) :=
  if h : i < s.length then
    let c := Char.ofNat s[i].toNat
    if c.isDigit then
      let m := n * 10 + UInt32.ofNat (Text.digitValue c)
      if decimalLimit ≤ m then none else scanDecimalFromAt s m (i + 1)
    else some (n, i)
  else some (n, i)
termination_by s.length - i

/-- The value of the run of decimal digits at an index and the index behind the
run. There must be a digit. -/
def scanDecimalAt? (s : List UInt8) (start : Nat) : Option (UInt32 × Nat) :=
  match scanDecimalFromAt s 0 start with
  | some (n, stop) => if stop = start then none else some (n, stop)
  | none => none

variable {s : List UInt8} {i : Nat} {rest : Text}

/-! ## Indices and tails -/

theorem tailAt_of_lt (h : i < s.length) :
    tailAt s i = Char.ofNat s[i].toNat :: tailAt s (i + 1) := by
  rw [tailAt, List.drop_eq_getElem_cons h]
  rfl

theorem tailAt_of_le (h : s.length ≤ i) : tailAt s i = [] := by
  rw [tailAt, List.drop_eq_nil_of_le h]
  rfl

theorem tailAt_suffix (s : List UInt8) (i : Nat) : tailAt s i <:+ ofBytes s :=
  (List.drop_suffix i s).map _

theorem indexOf_tailAt (h : i ≤ s.length) : indexOf s (tailAt s i) = i := by
  rw [indexOf, tailAt, length_ofBytes, List.length_drop]
  omega

/-- What is left of the whole stands from its index on. -/
theorem tailAt_indexOf (h : rest <:+ ofBytes s) : tailAt s (indexOf s rest) = rest := by
  have hdrop := List.suffix_iff_eq_drop.1 h
  rw [length_ofBytes, ofBytes, ← List.map_drop] at hdrop
  exact hdrop.symm

theorem indexOf_ofBytes (s : List UInt8) : indexOf s (ofBytes s) = 0 := by
  rw [indexOf, length_ofBytes, Nat.sub_self]

theorem indexOf_eq_length_iff (h : rest <:+ ofBytes s) : indexOf s rest = s.length ↔ rest = [] := by
  have hle := h.length_le
  rw [length_ofBytes] at hle
  rw [indexOf, ← List.length_eq_zero_iff]
  omega

/-! ## Digits at an index -/

theorem scanDecimalFromAt_eq (n : UInt32) (h : i ≤ s.length) :
    scanDecimalFromAt s n i =
      (scanDecimalFrom n (tailAt s i)).map fun p => (p.1, indexOf s p.2) := by
  fun_induction scanDecimalFromAt s n i with
  | case1 n i hi c hc m hm => simp [tailAt_of_lt hi, scanDecimalFrom, c, hc, m, hm]
  | case2 n i hi c hc m hm ih =>
    rw [ih hi, tailAt_of_lt hi, scanDecimalFrom, if_pos hc, if_neg hm]
  | case3 n i hi c hc =>
    have hrest := indexOf_tailAt h
    rw [tailAt_of_lt hi] at hrest ⊢
    rw [scanDecimalFrom, if_neg hc, Option.map_some, hrest]
  | case4 n i hi =>
    have hrest := indexOf_tailAt h
    rw [tailAt_of_le (Nat.le_of_not_lt hi)] at hrest ⊢
    rw [scanDecimalFrom, Option.map_some, hrest]

/-- Behind a run stands a proper end of the text. -/
theorem dropWhile_proper {p : Char → Bool} {t : Text} (h : t.takeWhile p ≠ []) :
    t.dropWhile p <:+ t ∧ (t.dropWhile p).length < t.length := by
  have hlen := congrArg List.length (List.takeWhile_append_dropWhile (p := p) (l := t))
  have hpos := List.length_pos_iff.2 h
  rw [List.length_append] at hlen
  exact ⟨List.dropWhile_suffix _, by omega⟩

/-- The reader of runs leaves a proper end of the text. -/
theorem of_scanDecimal? {t : Text} {n : UInt32} (h : scanDecimal? t = some (n, rest)) :
    rest <:+ t ∧ rest.length < t.length := by
  rw [scanDecimal?_eq, Option.ite_none_right_eq_some, Option.some.injEq, Prod.mk.injEq] at h
  obtain ⟨⟨hrun, -⟩, -, rfl⟩ := h
  exact dropWhile_proper hrun

/-- **Digits at an index.** In place, the same run of digits is read as from what
stands from the index on. -/
theorem scanDecimalAt?_eq (h : i ≤ s.length) :
    scanDecimalAt? s i = (scanDecimal? (tailAt s i)).map fun p => (p.1, indexOf s p.2) := by
  have hstart := indexOf_tailAt h
  unfold scanDecimalAt?
  rw [scanDecimalFromAt_eq 0 h]
  cases htail : tailAt s i with
  | nil =>
    rw [htail] at hstart
    simp [scanDecimalFrom, scanDecimal?, hstart]
  | cons c t =>
    rw [htail] at hstart
    by_cases hc : c.isDigit = true
    · have hscan : scanDecimal? (c :: t) = scanDecimalFrom 0 (c :: t) := if_pos hc
      rw [← hscan]
      cases hread : scanDecimal? (c :: t) with
      | none => rfl
      | some p =>
        obtain ⟨n, rest⟩ := p
        obtain ⟨-, hshort⟩ := of_scanDecimal? hread
        have hstop : indexOf s rest ≠ i := by
          have hlong := (tailAt_suffix s i).length_le
          rw [htail, length_ofBytes] at hlong
          unfold indexOf at hstart ⊢
          omega
        simp only [Option.map_some, if_neg hstop]
    · have hnone : scanDecimal? (c :: t) = none := if_neg hc
      rw [hnone, scanDecimalFrom, if_neg hc]
      simp [hstart]

end Ip

namespace Ipv4

open Ip Text

/-- Reads an octet at an index and gives the index behind it. -/
def scanOctetAt? (s : List UInt8) (i : Nat) : Option (UInt8 × Nat) :=
  match scanDecimalAt? s i with
  | some (n, next) => if n ≤ 255 then some (n.toUInt8, next) else none
  | none => none

/-- Reads the octet that stands at an index, or behind a dot there. -/
def scanNextAt? (s : List UInt8) (dotted : Bool) (i : Nat) : Option (UInt8 × Nat) :=
  if h : i < s.length then
    if dotted then
      if Char.ofNat s[i].toNat = '.' then scanOctetAt? s (i + 1) else none
    else scanOctetAt? s i
  else none

/-- The address that the bytes of a dotted quad stand for. -/
def parseBytes? (s : List UInt8) : Option Ipv4 := do
  let (a, i) ← scanNextAt? s false 0
  let (b, i) ← scanNextAt? s true i
  let (c, i) ← scanNextAt? s true i
  let (d, i) ← scanNextAt? s true i
  if i = s.length then some ⟨a, b, c, d⟩ else none

variable {s : List UInt8} {i : Nat} {rest : Text}

theorem scanOctetAt?_eq (h : i ≤ s.length) :
    scanOctetAt? s i = (scanOctet? (tailAt s i)).map fun p => (p.1, indexOf s p.2) := by
  unfold scanOctetAt? scanOctet?
  rw [scanDecimalAt?_eq h]
  cases scanDecimal? (tailAt s i) with
  | none => rfl
  | some p =>
    simp only [Option.map_some]
    split
    · rfl
    · rfl

/-- The octet in front of a text, or behind the dot there, and what follows. -/
def scanNext? (dotted : Bool) (t : Text) : Option (UInt8 × Text) :=
  if dotted then scanDottedOctet? t else scanOctet? t

theorem scanNextAt?_eq (dotted : Bool) (i : Nat) :
    scanNextAt? s dotted i =
      (scanNext? dotted (tailAt s i)).map fun p => (p.1, indexOf s p.2) := by
  unfold scanNextAt? scanNext?
  split
  · rename_i hi
    cases dotted with
    | false => exact scanOctetAt?_eq (Nat.le_of_lt hi)
    | true =>
      simp only [if_true]
      rw [tailAt_of_lt hi, scanDottedOctet?_cons]
      split
      · exact scanOctetAt?_eq hi
      · rfl
  · rename_i hi
    rw [tailAt_of_le (Nat.le_of_not_lt hi)]
    cases dotted with
    | false => rfl
    | true => rfl

theorem suffix_of_scanOctet? {t : Text} {n : UInt8} (h : scanOctet? t = some (n, rest)) :
    rest <:+ t := by
  obtain ⟨run, rfl, -⟩ := isOctet_of_scanOctet? h
  exact List.suffix_append run rest

theorem suffix_of_scanNext? {dotted : Bool} {t : Text} {n : UInt8}
    (h : scanNext? dotted t = some (n, rest)) : rest <:+ t := by
  cases dotted with
  | false => exact suffix_of_scanOctet? h
  | true =>
    obtain ⟨u, rfl, hu⟩ := scanDottedOctet?_eq_some_iff.1 h
    exact (suffix_of_scanOctet? hu).trans (List.suffix_cons '.' u)

/-- One octet further, both readers are in step again: the index is that of what
the other has left. -/
theorem bind_scanNextAt? {α : Type} {byIndex : UInt8 × Nat → Option α}
    {byText : UInt8 × Text → Option α} (hrest : rest <:+ ofBytes s) (dotted : Bool)
    (hnext : ∀ n next, next <:+ ofBytes s → byIndex (n, indexOf s next) = byText (n, next)) :
    (scanNextAt? s dotted (indexOf s rest)).bind byIndex = (scanNext? dotted rest).bind byText := by
  rw [scanNextAt?_eq, tailAt_indexOf hrest]
  cases hread : scanNext? dotted rest with
  | none => rfl
  | some p =>
    obtain ⟨n, next⟩ := p
    exact hnext n next ((suffix_of_scanNext? hread).trans hrest)

/-- **Quads in place.** The bytes of a byte string are read as the text with a
character for each of them. -/
theorem parseBytes?_eq (s : List UInt8) : parseBytes? s = parse? (ofBytes s) := by
  unfold parseBytes?
  rw [← indexOf_ofBytes s]
  refine bind_scanNextAt? (List.suffix_refl _) false fun a t ht => ?_
  refine bind_scanNextAt? ht true fun b u hu => ?_
  refine bind_scanNextAt? hu true fun c v hv => ?_
  refine bind_scanNextAt? hv true fun d w hw => ?_
  simp only [indexOf_eq_length_iff hw]

theorem ascii_of_parse? {s : Text} {x : Ipv4} (h : parse? s = some x) : ∀ c ∈ s, c.toNat < 128 := by
  intro c hc
  rcases (parse?_eq_some_iff_isDottedQuad.1 h).chars c hc with hdigit | rfl
  · have := toNat_of_isDigit hdigit
    omega
  · decide

theorem parseBytes?_bytes (s : Text) : parseBytes? (bytes s) = parse? s := by
  rw [parseBytes?_eq]
  exact Option.ext fun x => ofBytes_bytes_iff (fun _ => ascii_of_parse?) s

/-! ## The grammar -/

/-- An octet has any number of zeros in front, and is otherwise written in one
way. -/
theorem isOctet_iff {s : Text} {n : UInt8} :
    IsOctet s n ↔ ∃ k, s = List.replicate k '0' ++ decimal n.toNat := by
  constructor
  · intro h
    obtain ⟨k, hk⟩ := eq_zeros_append_decimal h.nonempty h.digits
    exact ⟨k, h.value ▸ hk⟩
  · rintro ⟨k, rfl⟩
    refine ⟨?_, ?_, ?_⟩
    · exact fun hnil => decimal_ne_nil _ (List.append_eq_nil_iff.1 hnil).2
    · intro c hc
      rcases List.mem_append.1 hc with hzero | hdigit
      · rw [List.eq_of_mem_replicate hzero]
        rfl
      · exact decimal_isDigit _ c hdigit
    · rw [decimalValue_zeros_append, decimalValue_decimal]

theorem isDottedQuad_iff {s : Text} {x : Ipv4} :
    IsDottedQuad s x ↔ ∃ p q r t : Text, s = p ++ '.' :: (q ++ '.' :: (r ++ '.' :: t)) ∧
      IsOctet p x.a ∧ IsOctet q x.b ∧ IsOctet r x.c ∧ IsOctet t x.d := by
  constructor
  · intro h
    cases h with
    | octets ha hb hc hd => exact ⟨_, _, _, _, rfl, ha, hb, hc, hd⟩
  · rintro ⟨p, q, r, t, rfl, ha, hb, hc, hd⟩
    exact .octets ha hb hc hd

theorem isDottedQuad_iff_zeros {s : Text} {x : Ipv4} :
    IsDottedQuad s x ↔ ∃ i j k l : Nat, s =
      List.replicate i '0' ++ decimal x.a.toNat ++ '.' ::
        (List.replicate j '0' ++ decimal x.b.toNat ++ '.' ::
          (List.replicate k '0' ++ decimal x.c.toNat ++ '.' ::
            (List.replicate l '0' ++ decimal x.d.toNat))) := by
  constructor
  · intro h
    cases h with
    | octets ha hb hc hd =>
      obtain ⟨i, rfl⟩ := isOctet_iff.1 ha
      obtain ⟨j, rfl⟩ := isOctet_iff.1 hb
      obtain ⟨k, rfl⟩ := isOctet_iff.1 hc
      obtain ⟨l, rfl⟩ := isOctet_iff.1 hd
      exact ⟨i, j, k, l, rfl⟩
  · rintro ⟨i, j, k, l, rfl⟩
    exact .octets (isOctet_iff.2 ⟨i, rfl⟩) (isOctet_iff.2 ⟨j, rfl⟩) (isOctet_iff.2 ⟨k, rfl⟩)
      (isOctet_iff.2 ⟨l, rfl⟩)

/-- **Dotted quads.** A text is read as an address exactly if it is four runs of
decimal digits with single dots between them, whose values are the octets; in other
words, if it is the text of the address with any number of zeros in front of each
octet. It makes no difference whether the text is read or its bytes in place. -/
theorem reads_exactly_quads (s : Text) (a b c d : UInt8) :
    (parse? s = some ⟨a, b, c, d⟩ ↔
      ∃ p q r t : Text, s = p ++ '.' :: (q ++ '.' :: (r ++ '.' :: t)) ∧
        IsOctet p a ∧ IsOctet q b ∧ IsOctet r c ∧ IsOctet t d) ∧
    (parse? s = some ⟨a, b, c, d⟩ ↔
      ∃ i j k l : Nat, s =
        List.replicate i '0' ++ decimal a.toNat ++ '.' ::
          (List.replicate j '0' ++ decimal b.toNat ++ '.' ::
            (List.replicate k '0' ++ decimal c.toNat ++ '.' ::
              (List.replicate l '0' ++ decimal d.toNat)))) ∧
    parseBytes? (bytes s) = parse? s :=
  ⟨parse?_eq_some_iff_isDottedQuad.trans isDottedQuad_iff,
    parse?_eq_some_iff_isDottedQuad.trans isDottedQuad_iff_zeros, parseBytes?_bytes s⟩

-- Zeros in front do not bring a run to the limit of its reader; other digits do.
example : parse? "0000000000192.0.2.1".toList = some ⟨192, 0, 2, 1⟩ ∧
    parse? "99999999.0.2.1".toList = none := by
  decide

end Ipv4
end NetDial
