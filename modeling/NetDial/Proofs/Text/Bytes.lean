import NetDial.Text.Basic

/-!
# Texts as bytes

A text in its UTF-8 form, and the places in it. An ASCII character is the byte
of its number; every other character has bytes from 128 on only, so that none of
them looks like an ASCII character.

A place in a text is its offset in bytes. A text can be cut at an offset unless
that is behind its end or inside a character; `cutAt?`, `slice?` and
`sliceFrom?` fail there.

**Results.**
* `length_bytes`: the size of a text is the number of its bytes.
* `byteAt?_append`: the byte in front of a character tells an ASCII character.
* `foldlM_bytes`: a machine that refuses what is not ASCII may run on the bytes.
* `ofBytes_bytes_iff`: what only ASCII texts have is seen in the bytes.
* `offsetOfFirst?_eq`, `offsetOfLast?_eq`: where a character is found.
* `cutAt?_append`, `slice?_append`: the cuts that succeed.
-/
namespace NetDial.Text

/-- The UTF-8 form of a text. -/
def bytes (s : Text) : List UInt8 :=
  s.flatMap String.utf8EncodeChar

/-- The byte at an offset. -/
def byteAt? (s : Text) (offset : Nat) : Option UInt8 :=
  (bytes s)[offset]?

/-- The byte of an ASCII character. -/
def asciiByte (c : Char) : UInt8 :=
  UInt8.ofNat c.toNat

/-- A byte string as a text with one character for each byte. -/
def ofBytes (bs : List UInt8) : Text :=
  bs.map fun b => Char.ofNat b.toNat

/-- The offset of the first `c`. -/
def offsetOfFirst? (c : Char) : Text → Option Nat
  | [] => none
  | x :: s => if x = c then some 0 else (offsetOfFirst? c s).map (x.utf8Size + ·)

/-- The offset of the last `c`. -/
def offsetOfLast? (c : Char) : Text → Option Nat
  | [] => none
  | x :: s =>
    match offsetOfLast? c s with
    | some n => some (x.utf8Size + n)
    | none => if x = c then some 0 else none

/-- The two sides of an offset. -/
def cutAt? : Nat → Text → Option (Text × Text)
  | 0, s => some ([], s)
  | _ + 1, [] => none
  | n + 1, c :: s =>
    if c.utf8Size ≤ n + 1 then
      (cutAt? (n + 1 - c.utf8Size) s).map fun p => (c :: p.1, p.2)
    else none

/-- What stands between two offsets. -/
def slice? (start stop : Nat) (s : Text) : Option Text :=
  (cutAt? stop s).bind fun p => (cutAt? start p.1).map Prod.snd

/-- What stands behind an offset. -/
def sliceFrom? (start : Nat) (s : Text) : Option Text :=
  (cutAt? start s).map Prod.snd

variable {c d : Char} {s : Text}

/-! ## Bytes -/

theorem byteLength_append (s t : Text) : byteLength (s ++ t) = byteLength s + byteLength t := by
  induction s with
  | nil => simp [byteLength]
  | cons c s ih => simp [byteLength, ih, Nat.add_assoc]

theorem byteLength_eq_zero_iff : byteLength s = 0 ↔ s = [] := by
  cases s with
  | nil => simp [byteLength]
  | cons c s =>
    have := c.utf8Size_pos
    simp only [byteLength, reduceCtorEq, iff_false]
    omega

theorem bytes_cons (c : Char) (s : Text) : bytes (c :: s) = String.utf8EncodeChar c ++ bytes s :=
  List.flatMap_cons

theorem bytes_append (s t : Text) : bytes (s ++ t) = bytes s ++ bytes t :=
  List.flatMap_append

theorem length_bytes (s : Text) : (bytes s).length = byteLength s := by
  induction s with
  | nil => rfl
  | cons c s ih =>
    rw [bytes_cons, List.length_append, String.length_utf8EncodeChar, ih]
    rfl

theorem utf8EncodeChar_ascii (h : c.toNat < 128) : String.utf8EncodeChar c = [asciiByte c] := by
  have hval : c.val.toNat ≤ 127 := Nat.le_of_lt_succ h
  simp only [String.utf8EncodeChar, hval, if_true]
  rfl

theorem le_of_mem_utf8EncodeChar (h : 128 ≤ c.toNat) {b : UInt8}
    (hb : b ∈ String.utf8EncodeChar c) : 128 ≤ b.toNat := by
  have hval : 128 ≤ c.val.toNat := h
  revert hb
  unfold String.utf8EncodeChar
  simp only
  split
  · omega
  · split
    · simp only [List.mem_cons, List.not_mem_nil, or_false]
      rintro (rfl | rfl) <;> rw [UInt8.toNat_ofNat'] <;> omega
    · split
      · simp only [List.mem_cons, List.not_mem_nil, or_false]
        rintro (rfl | rfl | rfl) <;> rw [UInt8.toNat_ofNat'] <;> omega
      · simp only [List.mem_cons, List.not_mem_nil, or_false]
        rintro (rfl | rfl | rfl | rfl) <;> rw [UInt8.toNat_ofNat'] <;> omega

theorem exists_first_byte (h : 128 ≤ c.toNat) :
    ∃ b bs, String.utf8EncodeChar c = b :: bs ∧ 128 ≤ b.toNat := by
  obtain ⟨b, bs, hcode⟩ := List.exists_cons_of_ne_nil (String.utf8EncodeChar_ne_nil (c := c))
  exact ⟨b, bs, hcode, le_of_mem_utf8EncodeChar h (hcode ▸ List.mem_cons_self)⟩

theorem asciiByte_toNat (h : c.toNat < 128) : (asciiByte c).toNat = c.toNat := by
  rw [asciiByte, UInt8.toNat_ofNat']
  omega

theorem toNat_ofNat_byte (b : UInt8) : (Char.ofNat b.toNat).toNat = b.toNat := by
  have hlt : b.toNat < 256 := b.toNat_lt
  have hvalid : b.toNat.isValidChar := .inl (by omega)
  have hchar : Char.ofNat b.toNat = Char.ofNatAux b.toNat hvalid := dif_pos hvalid
  exact congrArg Char.toNat hchar

/-- The byte at the beginning of a character, compared with that of an ASCII
character. -/
theorem byteAt?_append (hd : d.toNat < 128) (before behind : Text) (c : Char) :
    ∃ b, byteAt? (before ++ c :: behind) (byteLength before) = some b ∧
      (b = asciiByte d ↔ c = d) := by
  have hskip : byteAt? (before ++ c :: behind) (byteLength before) =
      (String.utf8EncodeChar c ++ bytes behind)[0]? := by
    rw [byteAt?, bytes_append, bytes_cons,
      List.getElem?_append_right (Nat.le_of_eq (length_bytes before)), length_bytes, Nat.sub_self]
  by_cases hc : c.toNat < 128
  · refine ⟨asciiByte c, by rw [hskip, utf8EncodeChar_ascii hc]; rfl, fun h => ?_, fun h => h ▸ rfl⟩
    have hnum : c.toNat = d.toNat := by
      rw [← asciiByte_toNat hc, ← asciiByte_toNat hd, h]
    exact Char.ext (UInt32.toNat_inj.1 hnum)
  · obtain ⟨b, bs, hcode, hb⟩ := exists_first_byte (Nat.le_of_not_lt hc)
    refine ⟨b, by rw [hskip, hcode]; rfl, fun h => ?_, fun h => ?_⟩
    · rw [h, asciiByte_toNat hd] at hb
      omega
    · rw [h] at hc
      exact absurd hd hc

/-- A machine that refuses every character that is not ASCII does on the bytes of
a text what it does on its characters. -/
theorem foldlM_bytes {σ : Type} {step : σ → Char → Option σ}
    (hrefuse : ∀ t c, 128 ≤ c.toNat → step t c = none) (t : σ) (s : Text) :
    (bytes s).foldlM (fun t b => step t (Char.ofNat b.toNat)) t = s.foldlM step t := by
  induction s generalizing t with
  | nil => rfl
  | cons c s ih =>
    rw [bytes_cons, List.foldlM_append, List.foldlM_cons]
    by_cases hc : c.toNat < 128
    · have hback : Char.ofNat (asciiByte c).toNat = c := by
        rw [asciiByte_toNat hc, Char.ofNat_toNat]
      rw [utf8EncodeChar_ascii hc]
      simp only [List.foldlM_cons, List.foldlM_nil, hback, bind_pure]
      exact congrArg (step t c).bind (funext ih)
    · -- The first byte is refused already.
      obtain ⟨b, bs, hcode, hb⟩ := exists_first_byte (Nat.le_of_not_lt hc)
      have hbig : 128 ≤ (Char.ofNat b.toNat).toNat := by rwa [toNat_ofNat_byte]
      rw [hcode, List.foldlM_cons, hrefuse t c (Nat.le_of_not_lt hc), hrefuse t _ hbig]
      rfl

/-! ## Bytes as a text -/

theorem length_ofBytes (bs : List UInt8) : (ofBytes bs).length = bs.length :=
  List.length_map _

theorem ofBytes_append (bs cs : List UInt8) : ofBytes (bs ++ cs) = ofBytes bs ++ ofBytes cs :=
  List.map_append

theorem ofBytes_bytes_of_ascii (h : ∀ c ∈ s, c.toNat < 128) : ofBytes (bytes s) = s := by
  induction s with
  | nil => rfl
  | cons c s ih =>
    have hc : c.toNat < 128 := h c List.mem_cons_self
    have hone : ofBytes [asciiByte c] = [c] := by
      simp only [ofBytes, List.map_cons, List.map_nil, asciiByte_toNat hc, Char.ofNat_toNat]
    rw [bytes_cons, ofBytes_append, utf8EncodeChar_ascii hc, hone,
      ih fun d hd => h d (List.mem_cons_of_mem c hd), List.singleton_append]

theorem ascii_of_ofBytes_bytes (h : ∀ c ∈ ofBytes (bytes s), c.toNat < 128) :
    ∀ c ∈ s, c.toNat < 128 := by
  intro c hc
  refine Classical.byContradiction fun hbig => ?_
  obtain ⟨b, bs, hcode, hb⟩ := exists_first_byte (Nat.le_of_not_lt hbig)
  have hmem : b ∈ bytes s := List.mem_flatMap.2 ⟨c, hc, hcode ▸ List.mem_cons_self⟩
  have hsmall := h _ (List.mem_map_of_mem hmem)
  rw [toNat_ofNat_byte] at hsmall
  omega

/-- What only texts of ASCII characters have, a text has exactly if its bytes have
it. -/
theorem ofBytes_bytes_iff {p : Text → Prop} (hascii : ∀ t, p t → ∀ c ∈ t, c.toNat < 128)
    (s : Text) : p (ofBytes (bytes s)) ↔ p s := by
  constructor
  · intro h
    rwa [ofBytes_bytes_of_ascii (ascii_of_ofBytes_bytes (hascii _ h))] at h
  · intro h
    rwa [ofBytes_bytes_of_ascii (hascii s h)]

/-! ## Offsets of characters -/

theorem offsetOfFirst?_eq (c : Char) (s : Text) :
    offsetOfFirst? c s = (splitFirst? c s).map fun p => byteLength p.1 := by
  induction s with
  | nil => rfl
  | cons x s ih =>
    unfold offsetOfFirst? splitFirst?
    split
    · rfl
    · rw [ih, Option.map_map, Option.map_map]
      rfl

theorem offsetOfLast?_eq (c : Char) (s : Text) :
    offsetOfLast? c s = (splitLast? c s).map fun p => byteLength p.1 := by
  induction s with
  | nil => rfl
  | cons x s ih =>
    unfold offsetOfLast? splitLast?
    rw [ih]
    cases splitLast? c s with
    | some p => rfl
    | none =>
      simp only [Option.map_none]
      split
      · rfl
      · rfl

/-! ## Cuts -/

theorem cutAt?_append (before behind : Text) :
    cutAt? (byteLength before) (before ++ behind) = some (before, behind) := by
  induction before with
  | nil => simp [byteLength, cutAt?]
  | cons c before ih =>
    obtain ⟨n, hn⟩ : ∃ n, byteLength (c :: before) = n + 1 := by
      have := c.utf8Size_pos
      exact ⟨c.utf8Size + byteLength before - 1, by simp only [byteLength]; omega⟩
    have hrest : n + 1 - c.utf8Size = byteLength before := by
      rw [← hn, byteLength, Nat.add_sub_cancel_left]
    rw [hn, List.cons_append, cutAt?, if_pos (by rw [← hn, byteLength]; omega), hrest, ih]
    rfl

/-- Beginnings of a text of the same size are the same. -/
theorem eq_of_byteLength {before behind before' behind' : Text}
    (h : before ++ behind = before' ++ behind') (hlen : byteLength before = byteLength before') :
    before = before' ∧ behind = behind' := by
  have hcut := cutAt?_append before behind
  rw [h, hlen, cutAt?_append, Option.some.injEq, Prod.mk.injEq] at hcut
  exact ⟨hcut.1.symm, hcut.2.symm⟩

theorem slice?_append (before middle behind : Text) :
    slice? (byteLength before) (byteLength before + byteLength middle)
      (before ++ middle ++ behind) = some middle := by
  rw [slice?, ← byteLength_append, cutAt?_append, Option.bind_some, cutAt?_append]
  rfl

theorem sliceFrom?_zero (s : Text) : sliceFrom? 0 s = some s := by
  simp [sliceFrom?, cutAt?]

theorem sliceFrom?_append (before behind : Text) :
    sliceFrom? (byteLength before) (before ++ behind) = some behind := by
  rw [sliceFrom?, cutAt?_append]
  rfl

end NetDial.Text
