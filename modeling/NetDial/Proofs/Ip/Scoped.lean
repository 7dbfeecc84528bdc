import NetDial.Ip.Scoped
import NetDial.Proofs.Ip.Ipv6Text

/-!
# Literals with zones

A zone is what stands behind the last percent sign, so a zone that is read has
no such sign in it; and only an IPv6 literal has a zone. `HasLiteral` says this
of an address. The addresses of which it holds are those that literals stand
for, and the text of each of them reads back.

**Results.**
* `splitHostZone_append`, `not_mem_splitHostZone`: which zones are read.
* `parse?_eq_some_iff`: what a literal stands for, by its family.
* `hasLiteral_of_parse?`, `parse?_text_of_hasLiteral`: both directions between
  literals and `HasLiteral`.
* `text_round_trip`: what is read from a text is read again from what it prints.
-/
namespace NetDial

/-! ## Zones -/

theorem splitHostZone_of_not_mem {s : Text} (h : '%' ∉ s) : splitHostZone s = (s, []) := by
  simp [splitHostZone, Text.splitLast?_eq_none_iff.2 h]

theorem splitHostZone_append {host zone : Text} (hne : host ≠ []) (h : '%' ∉ zone) :
    splitHostZone (host ++ '%' :: zone) = (host, zone) := by
  obtain ⟨c, t, rfl⟩ := List.exists_cons_of_ne_nil hne
  have hcut : Text.splitLast? '%' (c :: t ++ '%' :: zone) = some (c :: t, zone) :=
    Text.splitLast?_eq_some_iff.2 ⟨rfl, h⟩
  simp only [splitHostZone, hcut]

theorem not_mem_splitHostZone (s : Text) : '%' ∉ (splitHostZone s).2 := by
  unfold splitHostZone
  split
  · rename_i hcut
    exact (Text.splitLast?_eq_some_iff.1 hcut).2
  · simp

/-- A zone is a part of the text that it is read from. -/
theorem mem_of_mem_splitHostZone {s : Text} {c : Char} (h : c ∈ (splitHostZone s).2) : c ∈ s := by
  unfold splitHostZone at h
  split at h
  · rename_i hcut
    rw [(Text.splitLast?_eq_some_iff.1 hcut).1]
    exact List.mem_append_right _ (List.mem_cons_of_mem _ h)
  · cases h

/-- A zone that is given is not empty. -/
theorem zone?_eq_some_iff {s z : Text} : zone? s = some z ↔ s = z ∧ z ≠ [] := by
  unfold zone?
  by_cases h : s = []
  · rw [if_pos h, h]
    constructor
    · intro hz; cases hz
    · intro hz; exact absurd hz.1.symm hz.2
  · rw [if_neg h, Option.some.injEq]
    exact ⟨fun hz => ⟨hz, hz ▸ h⟩, fun hz => hz.1⟩

theorem bind_zone? (s : Text) : (zone? s).bind zone? = zone? s := by
  cases h : zone? s with
  | none => rfl
  | some z => exact zone?_eq_some_iff.2 ⟨rfl, (zone?_eq_some_iff.1 h).2⟩

/-! ## Literals of either family -/

theorem Ipv4.parse?_eq_none_of_mem {s : Text} {c : Char} (hc : c ∈ s) (hdigit : c.isDigit = false)
    (hdot : c ≠ '.') : Ipv4.parse? s = none := by
  cases h : Ipv4.parse? s with
  | none => rfl
  | some x =>
    rcases (Ipv4.parse?_eq_some_iff_isDottedQuad.1 h).chars c hc with hd | hd
    · rw [hdigit] at hd; cases hd
    · exact absurd hd hdot

namespace Ipv6

theorem text_ne_nil (x : Ipv6) : x.text ≠ [] :=
  List.ne_nil_of_mem x.text_isLiteral.mem_colon

theorem not_mem_text (x : Ipv6) {c : Char} (hc : isLiteralChar c = false) : c ∉ x.text := by
  intro hmem
  rw [x.text_isLiteral.chars c hmem] at hc
  cases hc

theorem parseZoned?_eq (s : Text) :
    parseZoned? s = (parse? (splitHostZone s).1).map fun x => (x, zone? (splitHostZone s).2) := rfl

theorem zone_of_parseZoned? {s : Text} {x : Ipv6} {zone : Option Text}
    (h : parseZoned? s = some (x, zone)) : zone = zone? (splitHostZone s).2 := by
  rw [parseZoned?_eq, Option.map_eq_some_iff] at h
  obtain ⟨y, -, hy⟩ := h
  exact (Prod.mk.inj hy).2.symm

theorem parseZoned?_text (x : Ipv6) : parseZoned? x.text = some (x, none) := by
  rw [parseZoned?_eq, splitHostZone_of_not_mem (x.not_mem_text (by decide)), parse?_text]
  rfl

theorem parseZoned?_text_zone (x : Ipv6) {z : Text} (hne : z ≠ []) (hz : '%' ∉ z) :
    parseZoned? (x.text ++ '%' :: z) = some (x, some z) := by
  rw [parseZoned?_eq, splitHostZone_append x.text_ne_nil hz, parse?_text,
    zone?_eq_some_iff.2 ⟨rfl, hne⟩]
  rfl

end Ipv6

namespace ScopedIp

/-- The address has a literal: only an IPv6 address has a zone, and a zone is
not empty and has no percent sign. -/
def HasLiteral (x : ScopedIp) : Prop :=
  ∀ z, x.zone = some z → x.ip.isV6 = true ∧ z ≠ [] ∧ '%' ∉ z

/-- A zone that is not empty is kept. -/
theorem withZone_of_ne_nil (ip : Ip) {zone : Option Text} (h : ∀ z, zone = some z → z ≠ []) :
    withZone ip zone = ⟨ip, zone⟩ := by
  cases zone with
  | none => rfl
  | some z => simp [withZone, zone?, h z rfl]

/-- A literal stands for an IPv4 address without zone, or for an IPv6 address
with the zone that it is read with. -/
theorem parse?_eq_some_iff {s : Text} {x : ScopedIp} :
    parse? s = some x ↔
      (∃ y, Ipv4.parse? s = some y ∧ x = ⟨.v4 y, none⟩) ∨
        Ipv4.parse? s = none ∧ ∃ y zone, Ipv6.parseZoned? s = some (y, zone) ∧
          x = ⟨.v6 y, zone⟩ := by
  unfold parse?
  cases h4 : Ipv4.parse? s with
  | some y => simp [ofIp, eq_comm]
  | none =>
    cases h6 : Ipv6.parseZoned? s with
    | none => simp
    | some p =>
      obtain ⟨y, zone⟩ := p
      have hzone : zone.bind zone? = zone := by
        rw [Ipv6.zone_of_parseZoned? h6]
        exact bind_zone? _
      simp only [Option.map_some, withZone, hzone, Option.some.injEq, reduceCtorEq, false_and,
        exists_false, false_or, true_and, Prod.mk.injEq]
      constructor
      · intro h; exact ⟨y, zone, ⟨rfl, rfl⟩, h.symm⟩
      · intro h
        obtain ⟨_, _, ⟨rfl, rfl⟩, rfl⟩ := h
        rfl

theorem hasLiteral_of_parse? {s : Text} {x : ScopedIp} (h : parse? s = some x) : x.HasLiteral := by
  intro z hz
  rcases parse?_eq_some_iff.1 h with ⟨y, -, rfl⟩ | ⟨-, y, zone, h6, rfl⟩
  · cases hz
  · have hread : zone? (splitHostZone s).2 = some z := by
      rw [← Ipv6.zone_of_parseZoned? h6]
      exact hz
    obtain ⟨hsplit, hne⟩ := zone?_eq_some_iff.1 hread
    exact ⟨rfl, hne, hsplit ▸ not_mem_splitHostZone s⟩

theorem parse?_text_of_hasLiteral {x : ScopedIp} (h : x.HasLiteral) : parse? x.text = some x := by
  obtain ⟨ip, zone⟩ := x
  rw [parse?_eq_some_iff]
  cases ip with
  | v4 y =>
    have hzone : zone = none := by
      cases zone with
      | none => rfl
      | some z => cases (h z rfl).1
    subst hzone
    exact .inl ⟨y, y.parse?_text, rfl⟩
  | v6 y =>
    have hcolon : ':' ∈ y.text := y.text_isLiteral.mem_colon
    refine .inr ?_
    cases zone with
    | none =>
      exact ⟨Ipv4.parse?_eq_none_of_mem hcolon rfl (by decide), y, none, y.parseZoned?_text, rfl⟩
    | some z =>
      obtain ⟨-, hne, hz⟩ := h z rfl
      have hmem : ':' ∈ y.text ++ '%' :: z := List.mem_append_left _ hcolon
      exact ⟨Ipv4.parse?_eq_none_of_mem hmem rfl (by decide), y, some z,
        y.parseZoned?_text_zone hne hz, rfl⟩

/-- **Round trip.** The text of an address reads back exactly if the address
has a literal; and what any text is read as has one, so that its own text is
read as the same address again. -/
theorem text_round_trip (x : ScopedIp) :
    (parse? x.text = some x ↔ x.HasLiteral) ∧
      ∀ s, parse? s = some x → x.HasLiteral ∧ parse? x.text = some x := by
  refine ⟨⟨hasLiteral_of_parse?, parse?_text_of_hasLiteral⟩, fun s h => ?_⟩
  have hlit := hasLiteral_of_parse? h
  exact ⟨hlit, parse?_text_of_hasLiteral hlit⟩

/-- Of two runs of two zero groups the first is left out, and the zone is kept. -/
theorem text_round_trip_zoned :
    let x : ScopedIp := ⟨.v6 ⟨[0xfe80, 0, 0, 1, 0, 0, 0x2a, 0xff], rfl⟩, some "eth0".toList⟩
    parse? "fe80::1:0:0:2a:FF%eth0".toList = some x ∧
      x.text = "fe80::1:0:0:2a:ff%eth0".toList ∧ parse? x.text = some x := by
  intro x
  have hread : parse? "fe80::1:0:0:2a:FF%eth0".toList = some x := by decide
  exact ⟨hread, by cbv, ((text_round_trip x).2 _ hread).2⟩

end ScopedIp
end NetDial
