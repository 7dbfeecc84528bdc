import NetDial.Ip.Print
import NetDial.Proofs.Ip.Ipv6Reader
import NetDial.Proofs.Text.Numeral

/-!
# The text of IPv6 addresses

The canonical text of an address is a literal that stands for the groups of the
address, wherever the run of zero groups is that it writes as `::`, and whether
or not it ends in a dotted quad.

**Results.**
* `longestZeros_isZeros`: what is left out of a text are zero groups.
* `text_isLiteral`: the text is a literal for the address.
* `parse?_text`: the text reads back.
-/
namespace NetDial.Ipv6

/-! ## Groups and dotted quads -/

theorem isGroup_hexadecimal (g : UInt16) : IsGroup (Text.hexadecimal g.toNat) g where
  nonempty := Text.numeral_ne_nil _ _
  short := Text.hexadecimal_length_le g.toNat_lt
  digits := Text.hexadecimal_isHexDigit _
  value := (Text.hexadecimalValue_hexadecimal _).symm

theorem isGroups_groupsText (g : UInt16) (gs : List UInt16) :
    IsGroups (groupsText (g :: gs)) (g :: gs) := by
  induction gs generalizing g with
  | nil => exact .one (isGroup_hexadecimal g)
  | cons g' gs ih =>
    have hsplit : groupsText (g :: g' :: gs) =
        Text.hexadecimal g.toNat ++ ':' :: groupsText (g' :: gs) := by
      simp [groupsText, Text.join]
    rw [hsplit]
    exact .more (isGroup_hexadecimal g) (ih g')

/-- The text of no groups is empty, and any other is a text of groups. -/
theorem groupsText_cases (gs : List UInt16) :
    groupsText gs = [] ∧ gs = [] ∨ IsGroups (groupsText gs) gs := by
  cases gs with
  | nil => exact .inl ⟨rfl, rfl⟩
  | cons g gs => exact .inr (isGroups_groupsText g gs)

/-- An octet is written with three digits at most, so the text of an IPv4
address may end a literal. -/
theorem isQuad_text (x : Ipv4) : IsQuad x.text x := by
  have hlt : x.a.toNat < 256 := x.a.toNat_lt
  have hshort : (Text.decimal x.a.toNat).length ≤ 3 := Text.decimal_length_le (by omega)
  refine ⟨Ipv4.parse?_text x, ?_⟩
  rw [Ipv4.text_eq, takeWhile_ne_dot fun c hc =>
    Text.isHexDigit_of_isDigit (Text.decimal_isDigit _ c hc)]
  omega

/-! ## The run that is left out -/

/-- At the place of the run stand zero groups, as many as it is long. -/
def Run.IsZeros (r : Run) (gs : List UInt16) : Prop :=
  ∃ ls rs, gs = ls ++ List.replicate r.length 0 ++ rs ∧ ls.length = r.start

theorem leadingZeros_spec (gs : List UInt16) :
    ∃ rs, gs = List.replicate (leadingZeros gs) 0 ++ rs := by
  induction gs with
  | nil => exact ⟨[], rfl⟩
  | cons g gs ih =>
    unfold leadingZeros
    by_cases hg : g = 0
    · obtain ⟨rs, hrs⟩ := ih
      refine ⟨rs, ?_⟩
      rw [if_pos hg, List.replicate_succ, List.cons_append, ← hrs, hg]
    · exact ⟨g :: gs, by simp [hg]⟩

/-- Wherever the search stands, the best run so far is one of zero groups. -/
theorem longestZerosFrom_isZeros {all ls gs : List UInt16} {best : Run} (hall : all = ls ++ gs)
    (hbest : best.IsZeros all) : (longestZerosFrom ls.length best gs).IsZeros all := by
  induction gs generalizing ls best with
  | nil => exact hbest
  | cons g gs ih =>
    have hnext : (if best.length < leadingZeros (g :: gs) then
        (⟨ls.length, leadingZeros (g :: gs)⟩ : Run) else best).IsZeros all := by
      split
      · obtain ⟨rs, hrs⟩ := leadingZeros_spec (g :: gs)
        exact ⟨ls, rs, by rw [hall, List.append_assoc, ← hrs], rfl⟩
      · exact hbest
    have hall' : all = (ls ++ [g]) ++ gs := by rw [hall]; simp
    have := ih hall' hnext
    rwa [List.length_append, List.length_singleton] at this

theorem longestZeros_isZeros (gs : List UInt16) : (longestZeros gs).IsZeros gs :=
  longestZerosFrom_isZeros (List.nil_append gs).symm ⟨[], gs, rfl, rfl⟩

/-! ## The text is a literal -/

/-- The text of an IPv4-mapped address ends in a dotted quad. -/
theorem isLiteral_mapped (y : Ipv4) :
    IsLiteral ("::ffff:".toList ++ y.text) y.toMapped.groups := by
  have hffff : Text.hexadecimal (0xffff : UInt16).toNat = "ffff".toList := by cbv
  have hgroup : IsGroup "ffff".toList 0xffff := hffff ▸ isGroup_hexadecimal 0xffff
  have htail : IsTail ("ffff".toList ++ ':' :: y.text) (0xffff :: y.groups) :=
    .more hgroup (.quad (isQuad_text y))
  exact .ellipsis (.inl ⟨rfl, rfl⟩) (.inr htail) (by simp [Ipv4.groups])

/-- Two or more zero groups may be left out of a text. -/
theorem isLiteral_leftOut {gs : List UInt16} {r : Run} (hr : r.IsZeros gs) (hlen : gs.length = 8)
    (htwo : 2 ≤ r.length) :
    IsLiteral (groupsText (gs.take r.start) ++ "::".toList
      ++ groupsText (gs.drop (r.start + r.length))) gs := by
  obtain ⟨ls, rs, rfl, hstart⟩ := hr
  simp only [List.length_append, List.length_replicate] at hlen
  have htake : (ls ++ List.replicate r.length 0 ++ rs).take r.start = ls := by
    rw [List.append_assoc, List.take_left' hstart]
  have hdrop : (ls ++ List.replicate r.length 0 ++ rs).drop (r.start + r.length) = rs :=
    List.drop_left' (by simp [hstart])
  have hzeros : r.length = 8 - (ls.length + rs.length) := by omega
  have htail : groupsText rs = [] ∧ rs = [] ∨ IsTail (groupsText rs) rs :=
    (groupsText_cases rs).imp_right IsGroups.isTail
  rw [htake, hdrop, hzeros, List.append_assoc]
  exact .ellipsis (groupsText_cases ls) htail (by omega)

theorem text_isLiteral (x : Ipv6) : IsLiteral x.text x.groups := by
  have hlen := x.length_groups
  unfold text
  split
  · rename_i y hy
    rw [← toMapped_of_mapped? hy]
    exact isLiteral_mapped y
  · simp only
    split
    · rename_i htwo
      exact isLiteral_leftOut (longestZeros_isZeros _) hlen htwo
    · refine .groups ?_ hlen
      rcases groupsText_cases x.groups with ⟨-, hnil⟩ | h
      · rw [hnil] at hlen; cases hlen
      · exact h

theorem parse?_text (x : Ipv6) : parse? x.text = some x :=
  parse?_of_isLiteral x.text_isLiteral

end NetDial.Ipv6
