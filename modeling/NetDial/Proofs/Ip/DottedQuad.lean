import NetDial.Ip.Literal
import NetDial.Ip.Print
import NetDial.Proofs.Ip.Scan

/-!
# Dotted quads

Which texts are dotted quads, said without a reader: four octets with single
dots between them. An octet may have any number of zeros in front, so a quad
alone may be of any length; the text of an address has no such zeros.

**Results.**
* `scanOctet?_of_isOctet`, `isOctet_of_scanOctet?`: the reader of octets takes a
  whole run of digits.
* `parse?_eq_some_iff_isDottedQuad`: the reader accepts the grammar and nothing
  else.
* `IsDottedQuad.chars`: a quad has only digits and dots.
* `parse?_text`: the text of an address is a quad and reads back.
-/
namespace NetDial.Ipv4

open Text (decimalValue)

/-- An octet is a run of decimal digits with a value up to 255. -/
structure IsOctet (s : Text) (n : UInt8) : Prop where
  nonempty : s ≠ []
  digits : ∀ c ∈ s, c.isDigit = true
  value : decimalValue s = n.toNat

/-- Four octets with dots between them. -/
inductive IsDottedQuad : Text → Ipv4 → Prop where
  | octets {s t u v : Text} {x : Ipv4} (ha : IsOctet s x.a) (hb : IsOctet t x.b)
      (hc : IsOctet u x.c) (hd : IsOctet v x.d) :
      IsDottedQuad (s ++ '.' :: (t ++ '.' :: (u ++ '.' :: v))) x

/-! ## The reader of octets -/

theorem scanOctet?_of_isOctet {run : Text} {n : UInt8} (h : IsOctet run n) (rest : Text)
    (hrest : ∀ c ∈ rest.head?, c.isDigit = false) : scanOctet? (run ++ rest) = some (n, rest) := by
  have hlt : n.toNat < 256 := n.toNat_lt
  have hlimit : Ip.decimalLimit.toNat = 16777215 := rfl
  have hscan : Ip.scanDecimal? (run ++ rest) = some (UInt32.ofNat n.toNat, rest) := by
    rw [Ip.scanDecimal?_append h.nonempty h.digits rest hrest, h.value, if_pos (by omega)]
  have hsmall : UInt32.ofNat n.toNat ≤ 255 := by
    rw [UInt32.le_iff_toNat_le, UInt32.toNat_ofNat']
    show n.toNat % 2 ^ 32 ≤ 255
    omega
  have hvalue : (UInt32.ofNat n.toNat).toUInt8 = n := by
    apply UInt8.toNat_inj.1
    rw [UInt32.toNat_toUInt8, UInt32.toNat_ofNat']
    omega
  simp only [scanOctet?, hscan, if_pos hsmall, hvalue]

theorem isOctet_of_scanOctet? {s rest : Text} {n : UInt8} (h : scanOctet? s = some (n, rest)) :
    ∃ run, s = run ++ rest ∧ IsOctet run n := by
  unfold scanOctet? at h
  rw [Ip.scanDecimal?_eq] at h
  by_cases hrun : s.takeWhile Char.isDigit ≠ [] ∧
      decimalValue (s.takeWhile Char.isDigit) < Ip.decimalLimit.toNat
  · rw [if_pos hrun] at h
    simp only [Option.ite_none_right_eq_some, Option.some.injEq, Prod.mk.injEq] at h
    obtain ⟨hle, hn, hrest⟩ := h
    refine ⟨s.takeWhile Char.isDigit, ?_, hrun.1,
      fun c hc => List.all_eq_true.1 List.all_takeWhile c hc, ?_⟩
    · rw [← hrest, List.takeWhile_append_dropWhile]
    · have hlimit : Ip.decimalLimit.toNat = 16777215 := rfl
      have h255 : (255 : UInt32).toNat = 255 := rfl
      have hbig := hrun.2
      rw [UInt32.le_iff_toNat_le, UInt32.toNat_ofNat', h255] at hle
      rw [← hn, UInt32.toNat_toUInt8, UInt32.toNat_ofNat']
      omega
  · rw [if_neg hrun] at h; cases h

/-! ## The reader of quads -/

theorem scanDottedOctet?_cons (c : Char) (t : Text) :
    scanDottedOctet? (c :: t) = if c = '.' then scanOctet? t else none := by
  split
  · rename_i hdot
    rw [hdot]
    rfl
  · rename_i hdot
    unfold scanDottedOctet?
    split
    · rename_i heq
      exact absurd (List.cons.inj heq).1 hdot
    · rfl

theorem scanDottedOctet?_eq_some_iff {s rest : Text} {n : UInt8} :
    scanDottedOctet? s = some (n, rest) ↔ ∃ t, s = '.' :: t ∧ scanOctet? t = some (n, rest) := by
  cases s with
  | nil => simp [scanDottedOctet?]
  | cons c t => simp [scanDottedOctet?_cons, and_assoc]

theorem parse?_eq_some_iff {s : Text} {x : Ipv4} :
    parse? s = some x ↔
      ∃ t u v, scanOctet? s = some (x.a, '.' :: t) ∧ scanOctet? t = some (x.b, '.' :: u) ∧
        scanOctet? u = some (x.c, '.' :: v) ∧ scanOctet? v = some (x.d, []) := by
  obtain ⟨a, b, c, d⟩ := x
  simp only [parse?, Option.bind_eq_bind, Option.bind_eq_some_iff, Prod.exists,
    scanDottedOctet?_eq_some_iff, Option.ite_none_right_eq_some, Option.some.injEq, mk.injEq]
  constructor
  · rintro ⟨_, _, ha, _, _, ⟨t, rfl, hb⟩, _, _, ⟨u, rfl, hc⟩, _, _, ⟨v, rfl, hd⟩,
      rfl, rfl, rfl, rfl, rfl⟩
    exact ⟨t, u, v, ha, hb, hc, hd⟩
  · rintro ⟨t, u, v, ha, hb, hc, hd⟩
    exact ⟨_, _, ha, _, _, ⟨t, rfl, hb⟩, _, _, ⟨u, rfl, hc⟩, _, _, ⟨v, rfl, hd⟩,
      rfl, rfl, rfl, rfl, rfl⟩

theorem parse?_eq_some_iff_isDottedQuad {s : Text} {x : Ipv4} :
    parse? s = some x ↔ IsDottedQuad s x := by
  rw [parse?_eq_some_iff]
  constructor
  · intro h
    obtain ⟨t, u, v, ha, hb, hc, hd⟩ := h
    obtain ⟨s, rfl, hs⟩ := isOctet_of_scanOctet? ha
    obtain ⟨t, rfl, ht⟩ := isOctet_of_scanOctet? hb
    obtain ⟨u, rfl, hu⟩ := isOctet_of_scanOctet? hc
    obtain ⟨v, rfl, hv⟩ := isOctet_of_scanOctet? hd
    rw [List.append_nil]
    exact .octets hs ht hu hv
  · intro h
    cases h with
    | @octets s t u v _ ha hb hc hd =>
      have hdot : ∀ r : Text, ∀ c ∈ ('.' :: r).head?, c.isDigit = false := by
        intro r c hc
        simp only [List.head?_cons, Option.mem_def, Option.some.injEq] at hc
        rw [← hc]; rfl
      have hlast := scanOctet?_of_isOctet hd [] (by simp)
      rw [List.append_nil] at hlast
      exact ⟨_, _, v, scanOctet?_of_isOctet ha _ (hdot _), scanOctet?_of_isOctet hb _ (hdot _),
        scanOctet?_of_isOctet hc _ (hdot _), hlast⟩

theorem IsDottedQuad.chars {s : Text} {x : Ipv4} (h : IsDottedQuad s x) :
    ∀ c ∈ s, c.isDigit = true ∨ c = '.' := by
  cases h with
  | octets ha hb hc hd =>
    intro c hmem
    simp only [List.mem_append, List.mem_cons] at hmem
    rcases hmem with h | rfl | h | rfl | h | rfl | h
    · exact .inl (ha.digits c h)
    · exact .inr rfl
    · exact .inl (hb.digits c h)
    · exact .inr rfl
    · exact .inl (hc.digits c h)
    · exact .inr rfl
    · exact .inl (hd.digits c h)

/-! ## The text of an address -/

theorem isOctet_decimal (n : UInt8) : IsOctet (Text.decimal n.toNat) n :=
  ⟨Text.decimal_ne_nil _, Text.decimal_isDigit _, Text.decimalValue_decimal _⟩

theorem text_eq (x : Ipv4) :
    x.text = Text.decimal x.a.toNat ++ '.' :: (Text.decimal x.b.toNat ++
      '.' :: (Text.decimal x.c.toNat ++ '.' :: Text.decimal x.d.toNat)) := by
  simp [text, Text.join]

theorem text_isDottedQuad (x : Ipv4) : IsDottedQuad x.text x := by
  rw [text_eq]
  exact .octets (isOctet_decimal _) (isOctet_decimal _) (isOctet_decimal _) (isOctet_decimal _)

theorem parse?_text (x : Ipv4) : parse? x.text = some x :=
  parse?_eq_some_iff_isDottedQuad.2 x.text_isDottedQuad

theorem not_mem_text (x : Ipv4) {c : Char} (hdigit : c.isDigit = false) (hdot : c ≠ '.') :
    c ∉ x.text := by
  intro hmem
  rcases x.text_isDottedQuad.chars c hmem with hd | hd
  · rw [hdigit] at hd; cases hd
  · exact hdot hd

end NetDial.Ipv4
