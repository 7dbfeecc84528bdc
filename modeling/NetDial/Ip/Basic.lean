import NetDial.Text.Basic

/-!
# IP addresses

An IPv4 address is four octets, an IPv6 address eight 16-bit groups. An IPv4
address has an IPv4-mapped IPv6 form, whose first 80 bits are zero and whose
next 16 bits are one.

**Results.**
* `Ipv6.ofGroups?_groups`: an IPv6 address is its groups.
* `Ipv4.mapped?_toMapped`, `Ipv6.toMapped_of_mapped?`: the mapped form reads
  back, and nothing else reads as mapped.
-/
namespace NetDial

/-- An IPv4 address by its octets. -/
structure Ipv4 where
  a : UInt8
  b : UInt8
  c : UInt8
  d : UInt8
  deriving DecidableEq, Repr

/-- An IPv6 address by its eight groups. -/
structure Ipv6 where
  groups : List UInt16
  length_groups : groups.length = 8
  deriving DecidableEq, Repr

/-- An IP address of either family. -/
inductive Ip where
  | v4 (addr : Ipv4)
  | v6 (addr : Ipv6)
  deriving DecidableEq, Repr

/-- Two octets as one group, the first octet being the high one. -/
def groupOfOctets (hi lo : UInt8) : UInt16 :=
  UInt16.ofNat (hi.toNat * 256 + lo.toNat)

/-- The high octet of a group. -/
def highOctet (g : UInt16) : UInt8 :=
  UInt8.ofNat (g.toNat / 256)

/-- The low octet of a group. -/
def lowOctet (g : UInt16) : UInt8 :=
  UInt8.ofNat (g.toNat % 256)

theorem highOctet_groupOfOctets (hi lo : UInt8) : highOctet (groupOfOctets hi lo) = hi := by
  have h1 := hi.toNat_lt
  have h2 := lo.toNat_lt
  apply UInt8.toNat_inj.1
  simp only [highOctet, groupOfOctets, UInt8.toNat_ofNat', UInt16.toNat_ofNat']
  omega

theorem lowOctet_groupOfOctets (hi lo : UInt8) : lowOctet (groupOfOctets hi lo) = lo := by
  have h1 := hi.toNat_lt
  have h2 := lo.toNat_lt
  apply UInt8.toNat_inj.1
  simp only [lowOctet, groupOfOctets, UInt8.toNat_ofNat', UInt16.toNat_ofNat']
  omega

theorem groupOfOctets_octets (g : UInt16) : groupOfOctets (highOctet g) (lowOctet g) = g := by
  have h := g.toNat_lt
  apply UInt16.toNat_inj.1
  simp only [highOctet, lowOctet, groupOfOctets, UInt8.toNat_ofNat', UInt16.toNat_ofNat']
  omega

namespace Ipv4

/-- The address `0.0.0.0`. -/
def unspecified : Ipv4 :=
  ⟨0, 0, 0, 0⟩

/-- The two groups that the octets fill at the end of an IPv6 address. -/
def groups (x : Ipv4) : List UInt16 :=
  [groupOfOctets x.a x.b, groupOfOctets x.c x.d]

/-- The address as a 32-bit number. -/
def bits (x : Ipv4) : Nat :=
  ((x.a.toNat * 256 + x.b.toNat) * 256 + x.c.toNat) * 256 + x.d.toNat

/-- The IPv4-mapped IPv6 form. -/
def toMapped (x : Ipv4) : Ipv6 :=
  ⟨[0, 0, 0, 0, 0, 0xffff] ++ x.groups, rfl⟩

end Ipv4

namespace Ipv6

/-- The address `::`. -/
def unspecified : Ipv6 :=
  ⟨List.replicate 8 0, rfl⟩

/-- The address with these groups, if there are eight. -/
def ofGroups? (gs : List UInt16) : Option Ipv6 :=
  if h : gs.length = 8 then some ⟨gs, h⟩ else none

/-- The address as a 128-bit number. -/
def bits (x : Ipv6) : Nat :=
  x.groups.foldl (fun n g => n * 65536 + g.toNat) 0

/-- The IPv4 address whose mapped form this is. -/
def mapped? (x : Ipv6) : Option Ipv4 :=
  match x.groups with
  | [g0, g1, g2, g3, g4, g5, hi, lo] =>
    if [g0, g1, g2, g3, g4, g5] = [0, 0, 0, 0, 0, 0xffff] then
      some ⟨highOctet hi, lowOctet hi, highOctet lo, lowOctet lo⟩
    else none
  | _ => none

theorem ext_groups {x y : Ipv6} (h : x.groups = y.groups) : x = y := by
  cases x; cases y; simp_all

theorem ofGroups?_groups (x : Ipv6) : ofGroups? x.groups = some x := by
  simp [ofGroups?, x.length_groups]

theorem toMapped_of_mapped? {x : Ipv6} {y : Ipv4} (h : x.mapped? = some y) :
    y.toMapped = x := by
  unfold mapped? at h
  split at h
  · rename_i hg
    split at h
    · rename_i hp
      simp only [Option.some.injEq] at h
      subst h
      apply ext_groups
      simp only [List.cons.injEq, and_true] at hp
      simp [hg, hp, Ipv4.toMapped, Ipv4.groups, groupOfOctets_octets]
    · cases h
  · cases h

end Ipv6

theorem Ipv4.mapped?_toMapped (x : Ipv4) : x.toMapped.mapped? = some x := by
  simp [Ipv6.mapped?, Ipv4.toMapped, Ipv4.groups, highOctet_groupOfOctets, lowOctet_groupOfOctets]

namespace Ip

/-- The address belongs to the IPv4 family. -/
def isV4 : Ip → Bool
  | .v4 _ => true
  | .v6 _ => false

/-- The address belongs to the IPv6 family. -/
def isV6 : Ip → Bool
  | .v4 _ => false
  | .v6 _ => true

/-- The IPv4 address that `ip` is or is the mapped form of. -/
def asV4? : Ip → Option Ipv4
  | .v4 x => some x
  | .v6 x => x.mapped?

/-- The place of an address when all IPv4 addresses come before all IPv6
addresses and each family is in numeric order. -/
def rank : Ip → Nat
  | .v4 x => x.bits
  | .v6 x => UInt32.size + x.bits

end Ip
end NetDial
