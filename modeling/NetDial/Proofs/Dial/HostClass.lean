import NetDial.Dial.Directory
import NetDial.Proofs.Address.Domain
import NetDial.Proofs.Dial.Target
import NetDial.Proofs.Ip.Scoped

/-!
# Classes of hosts

A host is an IPv4 literal, an IPv6 literal with a zone or without, or a name with
a zone or without. No host is two of these: every IPv6 literal has a colon, which
neither of the others has, and every name has a letter or an underscore, which no
IPv4 literal has.

So it does not matter in which order the three are tried. `ofHostIn` tries them
in any order, and `resolveBy` resolves with any way of reading a host.

**Results.**
* `holds_unique`: a host is of one class at most.
* `ofHostIn_eq`: the order in which the classes are tried does not matter.
* `host_classes_disjoint`: both, and what they say of names and literals.
-/
namespace NetDial

/-- What a host may be. -/
inductive HostClass where
  | v4
  | v6
  | name
  deriving DecidableEq, Repr

namespace HostClass

/-- The host is of the class. -/
def Holds (host : Text) : HostClass → Prop
  | v4 => (Ipv4.parse? host).isSome = true
  | v6 => (Ipv6.parseZoned? host).isSome = true
  | name => isDomainName (splitHostZone host).1 = true

/-- What a host of the class asks for. -/
def target? (host : Text) (port : UInt16) : HostClass → Option Target
  | v4 => (Ipv4.parse? host).map fun x => .literal (.v4 x) none port
  | v6 => (Ipv6.parseZoned? host).map fun p => .literal (.v6 p.1) p.2 port
  | name => (Domain.parse? (splitHostZone host).1).map fun d =>
      .name d (zone? (splitHostZone host).2) port

end HostClass

namespace Target

/-- What a host asks for, the classes being tried in this order. -/
def ofHostIn (order : List HostClass) (host : Text) (port : UInt16) :
    Except ResolveError Target :=
  match order.findSome? (HostClass.target? host port) with
  | some t => .ok t
  | none => .error (.resolution (.root .invalidDomain))

/-- What an address asks for, its host being read in this way. -/
def parseBy (read : Text → UInt16 → Except ResolveError Target) (n : Network)
    (services : Services) (address : Text) : Except ResolveError Target :=
  if address = [] then .error (.malformed (.root .missingAddress))
  else if n.addrKind = .localPath then .ok (.fixed (.localPath address))
  else
    match endpoint n services address with
    | .error e => .error e
    | .ok (host, port) =>
      if host = [] then .ok (.fixed (unspecified n port)) else read host port

end Target

/-- Resolves an address, its host being read in this way. -/
def Session.resolveBy (read : Text → UInt16 → Except ResolveError Target) (s : Session)
    (d : Directory) (deadline : Option Nat) (n : Network) (address : Text) :
    Option (Except ResolveError AddrList) × Session :=
  match Target.parseBy read n d.services address with
  | .error e => (some (.error e), s)
  | .ok (.fixed a) => (some (.ok ⟨n.addrKind, [a]⟩), s)
  | .ok (.literal ip zone port) => (some (Target.narrowed d.capability n zone port [ip]), s)
  | .ok (.name host zone port) => s.resolveName d deadline n host zone port

variable {host : Text} {port : UInt16}

/-! ## The characters of each class -/

theorem mem_of_mem_host {c : Char} (h : c ∈ (splitHostZone host).1) : c ∈ host := by
  unfold splitHostZone at h
  split at h
  · rename_i hcut
    rw [(Text.splitLast?_eq_some_iff.1 hcut).1]
    exact List.mem_append_left _ h
  · exact h

theorem mem_colon_of_v6 (h : HostClass.v6.Holds host) : ':' ∈ (splitHostZone host).1 := by
  obtain ⟨p, hp⟩ := Option.isSome_iff_exists.1 h
  rw [Ipv6.parseZoned?_eq, Option.map_eq_some_iff] at hp
  obtain ⟨x, hx, -⟩ := hp
  exact (Ipv6.isLiteral_of_parse? hx).mem_colon

theorem chars_of_v4 (h : HostClass.v4.Holds host) : ∀ c ∈ host, c.isDigit = true ∨ c = '.' := by
  obtain ⟨x, hx⟩ := Option.isSome_iff_exists.1 h
  exact (Ipv4.parse?_eq_some_iff_isDottedQuad.1 hx).chars

theorem isName_of_name (h : HostClass.name.Holds host) : IsName (splitHostZone host).1 :=
  isDomainName_eq_true_iff_isName.1 h

/-- A name has no percent sign, so it is all of the host. -/
theorem splitHostZone_of_isDomainName (h : isDomainName host = true) :
    splitHostZone host = (host, []) := by
  apply splitHostZone_of_not_mem
  intro hmem
  have := (isDomainName_eq_true_iff_isName.1 h).chars '%' hmem
  revert this; decide

/-! ## No two classes -/

theorem not_v4_and_v6 (h4 : HostClass.v4.Holds host) (h6 : HostClass.v6.Holds host) : False := by
  have := chars_of_v4 h4 ':' (mem_of_mem_host (mem_colon_of_v6 h6))
  revert this; decide

theorem not_v4_and_name (h4 : HostClass.v4.Holds host) (hn : HostClass.name.Holds host) :
    False := by
  obtain ⟨c, hc, hnaming⟩ := (isName_of_name hn).named
  rcases chars_of_v4 h4 c (mem_of_mem_host hc) with hdigit | rfl
  · rw [isDigit_of_isNaming hnaming] at hdigit
    cases hdigit
  · revert hnaming; decide

theorem not_v6_and_name (h6 : HostClass.v6.Holds host) (hn : HostClass.name.Holds host) :
    False := by
  have := (isName_of_name hn).chars ':' (mem_colon_of_v6 h6)
  revert this; decide

theorem holds_unique {k l : HostClass} (hk : k.Holds host) (hl : l.Holds host) : k = l := by
  cases k with
  | v4 =>
    cases l with
    | v4 => rfl
    | v6 => exact (not_v4_and_v6 hk hl).elim
    | name => exact (not_v4_and_name hk hl).elim
  | v6 =>
    cases l with
    | v4 => exact (not_v4_and_v6 hl hk).elim
    | v6 => rfl
    | name => exact (not_v6_and_name hk hl).elim
  | name =>
    cases l with
    | v4 => exact (not_v4_and_name hl hk).elim
    | v6 => exact (not_v6_and_name hl hk).elim
    | name => rfl

/-! ## Any order -/

theorem holds_of_target? {k : HostClass} {t : Target} (h : k.target? host port = some t) :
    k.Holds host := by
  cases k with
  | v4 =>
    obtain ⟨x, hx, -⟩ := Option.map_eq_some_iff.1 h
    exact Option.isSome_of_eq_some hx
  | v6 =>
    obtain ⟨p, hp, -⟩ := Option.map_eq_some_iff.1 h
    exact Option.isSome_of_eq_some hp
  | name =>
    obtain ⟨d, hd, -⟩ := Option.map_eq_some_iff.1 h
    have hname := Domain.parse?_eq_some_iff.1 hd
    show isDomainName (splitHostZone host).1 = true
    rw [hname]
    exact d.isName

/-- Whichever class is tried first, the one that holds gives the target. -/
theorem findSome?_target? {order : List HostClass} (hall : ∀ k, k ∈ order) {k : HostClass}
    {t : Target} (h : k.target? host port = some t) :
    order.findSome? (HostClass.target? host port) = some t := by
  cases hfind : order.findSome? (HostClass.target? host port) with
  | none =>
    rw [List.findSome?_eq_none_iff.1 hfind k (hall k)] at h
    cases h
  | some u =>
    obtain ⟨l, -, hl⟩ := List.exists_of_findSome?_eq_some hfind
    obtain rfl := holds_unique (holds_of_target? h) (holds_of_target? hl)
    rw [← hl, h]

theorem ofHostIn_eq {order : List HostClass} (hall : ∀ k, k ∈ order) :
    Target.ofHostIn order = Target.ofHost := by
  funext host port
  have hcases := Target.ofHost_cases host port
  generalize Target.ofHost host port = result at hcases
  unfold Target.ofHostIn
  cases hcases with
  | v4 x h4 =>
    have ht : HostClass.v4.target? host port = some (.literal (.v4 x) none port) := by
      simp [HostClass.target?, h4]
    rw [findSome?_target? hall ht]
  | v6 x zone h4 h6 =>
    have ht : HostClass.v6.target? host port = some (.literal (.v6 x) zone port) := by
      simp [HostClass.target?, h6]
    rw [findSome?_target? hall ht]
  | name d h4 h6 hname =>
    have ht : HostClass.name.target? host port =
        some (.name d (zone? (splitHostZone host).2) port) := by
      simp [HostClass.target?, hname]
    rw [findSome?_target? hall ht]
  | noName h4 h6 hname =>
    have hnone : order.findSome? (HostClass.target? host port) = none := by
      rw [List.findSome?_eq_none_iff]
      intro k _
      cases k <;> simp [HostClass.target?, h4, h6, hname]
    rw [hnone]

theorem not_literal_of_isDomainName (h : isDomainName host = true) :
    Ipv4.parse? host = none ∧ Ipv6.parse? host = none ∧ Ipv6.parseZoned? host = none := by
  have hsplit := splitHostZone_of_isDomainName h
  have hname : HostClass.name.Holds host := by
    show isDomainName (splitHostZone host).1 = true
    rw [hsplit]
    exact h
  have h4 : Ipv4.parse? host = none :=
    Option.not_isSome_iff_eq_none.1 fun h4 => not_v4_and_name h4 hname
  have h6 : Ipv6.parseZoned? host = none :=
    Option.not_isSome_iff_eq_none.1 fun h6 => not_v6_and_name h6 hname
  have hplain := h6
  rw [Ipv6.parseZoned?_eq, hsplit, Option.map_eq_none_iff] at hplain
  exact ⟨h4, hplain, h6⟩

/-- **Disjoint classes.** A host is of one class at most. A domain name is no
literal, a text that is read as an address is no domain name, and in whatever order
the classes are tried, a host asks for the same and a resolution comes to the
same. -/
theorem host_classes_disjoint (host : Text) :
    (∀ k l : HostClass, k.Holds host → l.Holds host → k = l) ∧
    (isDomainName host = true →
      Ipv4.parse? host = none ∧ Ipv6.parse? host = none ∧ Ipv6.parseZoned? host = none) ∧
    ((ScopedIp.parse? host).isSome = true → isDomainName host = false) ∧
    ∀ order : List HostClass, (∀ k, k ∈ order) →
      (∀ port, Target.ofHostIn order host port = Target.ofHost host port) ∧
      ∀ s d deadline n address,
        Session.resolveBy (Target.ofHostIn order) s d deadline n address =
          s.resolve d deadline n address := by
  refine ⟨fun k l => holds_unique, not_literal_of_isDomainName, fun hread => ?_, fun order hall => ?_⟩
  · rw [← Bool.not_eq_true]
    intro hname
    obtain ⟨h4, -, h6⟩ := not_literal_of_isDomainName hname
    rw [ScopedIp.parse?, h4, h6] at hread
    cases hread
  · rw [ofHostIn_eq hall]
    exact ⟨fun _ => rfl, fun _ _ _ _ _ => rfl⟩

/-- Labels of hexadecimal digits are no groups, and groups are no labels. -/
theorem host_classes_disjoint_hexadecimal :
    let name := "beef.cafe".toList
    let literal := "beef::cafe%lo0".toList
    let order : List HostClass := [.name, .v6, .v4]
    (isDomainName name = true ∧ Ipv6.parseZoned? name = none) ∧
    (HostClass.v6.Holds literal ∧ ∀ k : HostClass, k.Holds literal → k = .v6) ∧
    ((ScopedIp.parse? literal).isSome = true ∧ isDomainName literal = false) ∧
    ((∀ k, k ∈ order) ∧ ∀ port, Target.ofHostIn order literal port = Target.ofHost literal port) := by
  intro name literal order
  have hname : isDomainName name = true := by decide
  have h6 : HostClass.v6.Holds literal := by
    show (Ipv6.parseZoned? literal).isSome = true
    decide
  have hread : (ScopedIp.parse? literal).isSome = true := by decide
  have hall : ∀ k, k ∈ order := by
    intro k
    cases k <;> decide
  obtain ⟨hunique, -, hnoName, horder⟩ := host_classes_disjoint literal
  exact ⟨⟨hname, ((host_classes_disjoint name).2.1 hname).2.2⟩,
    ⟨h6, fun k hk => hunique k .v6 hk h6⟩, ⟨hread, hnoName hread⟩, hall, (horder order hall).1⟩

end NetDial
