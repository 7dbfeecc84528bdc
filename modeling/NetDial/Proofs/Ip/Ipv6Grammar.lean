import NetDial.Proofs.Ip.DottedQuad

/-!
# The grammar of IPv6 literals

Which texts are IPv6 literals, and which eight groups each of them stands for,
said without a reader.

A dotted quad at the end of a literal is read twice, its first octet also as a
group. So an octet of more than four digits, which a quad alone may have, is
refused there.

**Results.**
* `IsLiteral.length_groups`: a literal stands for eight groups.
* `IsQuad.split`, `IsTail.head`: how the parts of a literal begin.
* `IsLiteral.chars`, `IsLiteral.mem_colon`: which characters a literal has.
* `isGroup_of_scanHex?`, `scanHex?_of_isGroup`: the hexadecimal reader takes
  groups and nothing else.
-/
namespace NetDial.Ipv6

open Text (isHexDigit hexadecimalValue)

/-! ## The grammar -/

/-- A group is one to four hexadecimal digits. -/
structure IsGroup (s : Text) (g : UInt16) : Prop where
  nonempty : s ≠ []
  short : s.length ≤ 4
  digits : ∀ c ∈ s, isHexDigit c = true
  value : g.toNat = hexadecimalValue s

/-- One or more groups with single colons between them. -/
inductive IsGroups : Text → List UInt16 → Prop where
  | one {s : Text} {g : UInt16} (h : IsGroup s g) : IsGroups s [g]
  | more {s t : Text} {g : UInt16} {gs : List UInt16} (h : IsGroup s g) (ht : IsGroups t gs) :
      IsGroups (s ++ ':' :: t) (g :: gs)

/-- A dotted quad as it may end a literal: its first octet has at most four
digits. -/
structure IsQuad (s : Text) (x : Ipv4) : Prop where
  parsed : Ipv4.parse? s = some x
  short : (s.takeWhile (· != '.')).length ≤ 4

/-- One or more groups with single colons between them, of which the last two
may be written as a dotted quad. -/
inductive IsTail : Text → List UInt16 → Prop where
  | group {s : Text} {g : UInt16} (h : IsGroup s g) : IsTail s [g]
  | quad {s : Text} {x : Ipv4} (h : IsQuad s x) : IsTail s x.groups
  | more {s t : Text} {g : UInt16} {gs : List UInt16} (h : IsGroup s g) (ht : IsTail t gs) :
      IsTail (s ++ ':' :: t) (g :: gs)

/-- A literal and the groups that it stands for: all eight of them, six and a
dotted quad, or an ellipsis in the place of one or more zero groups. -/
inductive IsLiteral : Text → List UInt16 → Prop where
  | groups {s : Text} {gs : List UInt16} (h : IsGroups s gs) (hlen : gs.length = 8) :
      IsLiteral s gs
  | quad {s t : Text} {gs : List UInt16} {x : Ipv4} (h : IsGroups s gs) (hlen : gs.length = 6)
      (ht : IsQuad t x) : IsLiteral (s ++ ':' :: t) (gs ++ x.groups)
  | ellipsis {s t : Text} {ls rs : List UInt16} (hs : s = [] ∧ ls = [] ∨ IsGroups s ls)
      (ht : t = [] ∧ rs = [] ∨ IsTail t rs) (hlen : ls.length + rs.length ≤ 7) :
      IsLiteral (s ++ ':' :: ':' :: t)
        (ls ++ List.replicate (8 - (ls.length + rs.length)) 0 ++ rs)

/-! ## How the parts of a literal begin and how long they are -/

theorem ne_of_isHexDigit {c d : Char} (hc : isHexDigit c = true) (hd : isHexDigit d = false) :
    c ≠ d := by
  intro hcd
  rw [← hcd, hc] at hd; cases hd

theorem IsGroup.head {s : Text} {g : UInt16} (h : IsGroup s g) : ∃ c t, s = c :: t ∧ c ≠ ':' := by
  cases s with
  | nil => exact absurd rfl h.nonempty
  | cons c t => exact ⟨c, t, rfl, ne_of_isHexDigit (h.digits c (by simp)) (by decide)⟩

/-- A run of digits in front of a dot is all that stands before the first dot. -/
theorem takeWhile_ne_dot {run rest : Text} (h : ∀ c ∈ run, isHexDigit c = true) :
    (run ++ '.' :: rest).takeWhile (· != '.') = run := by
  rw [List.takeWhile_append_of_pos fun c hc => by
    simpa using ne_of_isHexDigit (h c hc) (by decide)]
  simp

/-- What stands before the first dot of a quad is a run of digits. -/
theorem IsQuad.split {s : Text} {x : Ipv4} (h : IsQuad s x) :
    ∃ run rest, s = run ++ '.' :: rest ∧ run ≠ [] ∧ run.length ≤ 4 ∧
      ∀ c ∈ run, c.isDigit = true := by
  have hshort := h.short
  cases Ipv4.parse?_eq_some_iff_isDottedQuad.1 h.parsed with
  | @octets run _ _ _ _ ha =>
    rw [takeWhile_ne_dot fun c hc => Text.isHexDigit_of_isDigit (ha.digits c hc)] at hshort
    exact ⟨run, _, rfl, ha.nonempty, hshort, ha.digits⟩

/-- A tail does not begin with a colon, so no colon in front of it belongs to an
ellipsis. -/
theorem IsTail.head {s : Text} {gs : List UInt16} (h : IsTail s gs) :
    ∃ c t, s = c :: t ∧ c ≠ ':' := by
  cases h with
  | group h => exact h.head
  | quad h =>
    obtain ⟨run, rest, rfl, hne, -, hdigits⟩ := h.split
    cases run with
    | nil => exact absurd rfl hne
    | cons c run =>
      have hc := Text.isHexDigit_of_isDigit (hdigits c (by simp))
      exact ⟨c, _, rfl, ne_of_isHexDigit hc (by decide)⟩
  | more h ht =>
    obtain ⟨c, t, rfl, hc⟩ := h.head
    exact ⟨c, _, rfl, hc⟩

theorem IsGroups.isTail {s : Text} {gs : List UInt16} (h : IsGroups s gs) : IsTail s gs := by
  induction h with
  | one h => exact .group h
  | more h _ ih => exact .more h ih

theorem IsGroups.isTail_quad {s t : Text} {gs : List UInt16} {x : Ipv4} (h : IsGroups s gs)
    (ht : IsQuad t x) : IsTail (s ++ ':' :: t) (gs ++ x.groups) := by
  induction h with
  | one h => exact .more h (.quad ht)
  | more h _ ih => simpa using IsTail.more h ih

/-- A tail is groups alone, a quad alone, or groups and then a quad. -/
theorem IsTail.cases_quad {s : Text} {gs : List UInt16} (h : IsTail s gs) :
    IsGroups s gs ∨ (∃ x, IsQuad s x ∧ gs = x.groups) ∨
      ∃ t u hs x, s = t ++ ':' :: u ∧ gs = hs ++ Ipv4.groups x ∧ IsGroups t hs ∧ IsQuad u x := by
  induction h with
  | group h => exact .inl (.one h)
  | quad h => exact .inr (.inl ⟨_, h, rfl⟩)
  | more h _ ih =>
    rcases ih with ht | ⟨x, hx, rfl⟩ | ⟨t, u, hs, x, rfl, rfl, ht, hx⟩
    · exact .inl (.more h ht)
    · exact .inr (.inr ⟨_, _, _, x, rfl, rfl, .one h, hx⟩)
    · exact .inr (.inr ⟨_, u, _, x, by simp, by simp, .more h ht, hx⟩)

theorem IsLiteral.length_groups {s : Text} {gs : List UInt16} (h : IsLiteral s gs) :
    gs.length = 8 := by
  cases h with
  | groups _ hlen => exact hlen
  | quad _ hlen _ => rw [List.length_append, hlen]; rfl
  | ellipsis _ _ hlen =>
    simp only [List.length_append, List.length_replicate]
    omega

/-! ## The characters of a literal -/

/-- Hexadecimal digits, colons and dots. -/
def isLiteralChar (c : Char) : Bool :=
  isHexDigit c || c == ':' || c == '.'

theorem ascii_of_isLiteralChar {c : Char} (h : isLiteralChar c = true) : c.toNat < 128 := by
  simp only [isLiteralChar, Bool.or_eq_true, beq_iff_eq] at h
  rcases h with (h | rfl) | rfl
  · exact Text.ascii_of_isHexDigit h
  · decide
  · decide

theorem IsTail.chars {s : Text} {gs : List UInt16} (h : IsTail s gs) :
    ∀ c ∈ s, isLiteralChar c = true := by
  induction h with
  | group h =>
    intro c hc
    simp [isLiteralChar, h.digits c hc]
  | quad h =>
    intro c hc
    rcases (Ipv4.parse?_eq_some_iff_isDottedQuad.1 h.parsed).chars c hc with hd | rfl
    · simp [isLiteralChar, Text.isHexDigit_of_isDigit hd]
    · rfl
  | more h _ ih =>
    intro c hc
    simp only [List.mem_append, List.mem_cons] at hc
    rcases hc with hc | rfl | hc
    · simp [isLiteralChar, h.digits c hc]
    · rfl
    · exact ih c hc

theorem IsLiteral.chars {s : Text} {gs : List UInt16} (h : IsLiteral s gs) :
    ∀ c ∈ s, isLiteralChar c = true := by
  cases h with
  | groups h _ => exact h.isTail.chars
  | quad h _ ht => exact (h.isTail_quad ht).chars
  | ellipsis hs ht _ =>
    intro c hc
    simp only [List.mem_append, List.mem_cons] at hc
    rcases hc with hc | rfl | rfl | hc
    · rcases hs with ⟨rfl, -⟩ | hs
      · cases hc
      · exact hs.isTail.chars c hc
    · rfl
    · rfl
    · rcases ht with ⟨rfl, -⟩ | ht
      · cases hc
      · exact ht.chars c hc

theorem IsLiteral.mem_colon {s : Text} {gs : List UInt16} (h : IsLiteral s gs) : ':' ∈ s := by
  cases h with
  | groups h hlen =>
    cases h with
    | one h => cases hlen
    | more h ht => simp
  | quad h _ ht => simp
  | ellipsis _ _ _ => simp

/-! ## Reading one group -/

theorem isGroup_of_scanHex? {s after : Text} {n : UInt32} (h : Ip.scanHex? s = some (n, after)) :
    ∃ run, s = run ++ after ∧ IsGroup run n.toUInt16 := by
  rw [Ip.scanHex?_eq] at h
  split at h
  · rename_i hrun
    simp only [Option.some.injEq, Prod.mk.injEq] at h
    obtain ⟨rfl, rfl⟩ := h
    refine ⟨_, (List.takeWhile_append_dropWhile).symm, hrun.1, hrun.2,
      fun c hc => List.all_eq_true.1 List.all_takeWhile c hc, ?_⟩
    have := Text.hexadecimalValue_lt hrun.2
    rw [UInt32.toNat_toUInt16, UInt32.toNat_ofNat']
    omega
  · cases h

theorem scanHex?_of_isGroup {run : Text} {g : UInt16} (h : IsGroup run g) (rest : Text)
    (hrest : ∀ c ∈ rest.head?, isHexDigit c = false) :
    ∃ n, Ip.scanHex? (run ++ rest) = some (n, rest) ∧ n.toUInt16 = g := by
  obtain ⟨htake, hdrop⟩ := Text.span_run h.digits hrest
  refine ⟨UInt32.ofNat (hexadecimalValue run), ?_, ?_⟩
  · rw [Ip.scanHex?_eq, htake, hdrop, if_pos ⟨h.nonempty, h.short⟩]
  · have := Text.hexadecimalValue_lt h.short
    apply UInt16.toNat_inj.1
    rw [UInt32.toNat_toUInt16, UInt32.toNat_ofNat', h.value]
    omega

end NetDial.Ipv6
