import NetDial.Dial.Target

/-!
# What an address asks for

An address that is well formed on a network asks for a path, for the unspecified
address, or for a host; the host is an IPv4 literal, an IPv6 literal, or else a
name. What is wrong with it is found in a fixed order: whether it is well formed
at all comes before anything about its host.

**Results.**
* `parse_of_malformed`, `parse_of_wellFormed`: what the text of an address asks
  for, by its host.
* `ofHost_v4`, `ofHost_v6`, `ofHost_named`, `ofHost_cases`: what a host asks for.
* `narrowed_eq_error_iff`: narrowing fails exactly if it leaves nothing.
* `mem_of_narrowed`: where what it leaves comes from.
-/
namespace NetDial

/-- The host in an address, on a network whose addresses have one. -/
def Network.hostOf? (n : Network) (address : Text) : Option Text :=
  if n.addrKind = .localPath then none
  else
    match n.transport? with
    | none => some address
    | some _ =>
      match splitHostPort address with
      | .ok (host, _) => some host
      | .error _ => none

/-- The address is empty, or the network has ports and the address has no host
and port, or a port that is none. -/
inductive IsMalformed (n : Network) (services : Services) (address : Text) : Prop where
  | empty (h : address = [])
  | unsplit (t : Transport) (e : AddrError) (ht : n.transport? = some t)
      (h : splitHostPort address = .error e)
  | badPort (t : Transport) (host port : Text) (e : Error) (ht : n.transport? = some t)
      (h : splitHostPort address = .ok (host, port)) (hp : parsePort t port services = .error e)

/-- The address has a host that is neither empty nor a literal. -/
structure IsNamed (n : Network) (address host : Text) : Prop where
  inAddress : n.hostOf? address = some host
  nonempty : host ≠ []
  notV4 : Ipv4.parse? host = none
  notV6 : Ipv6.parseZoned? host = none

theorem Domain.parse?_eq_none_iff {s : Text} : Domain.parse? s = none ↔ isDomainName s = false := by
  unfold Domain.parse?
  split
  · rename_i h; simp [h]
  · rename_i h; simp [h]

theorem Domain.parse?_eq_some_iff {s : Text} {d : Domain} :
    Domain.parse? s = some d ↔ s = d.name := by
  unfold Domain.parse?
  split
  · rename_i h
    rw [Option.some.injEq]
    constructor
    · rintro rfl
      rfl
    · rintro rfl
      rfl
  · rename_i h
    simp only [reduceCtorEq, false_iff]
    rintro rfl
    exact h d.isName

/-- The empty text is no literal. -/
theorem ne_nil_of_literal {host : Text}
    (h : (Ipv4.parse? host).isSome = true ∨ (Ipv6.parseZoned? host).isSome = true) : host ≠ [] := by
  intro hnil
  subst hnil
  revert h; decide

theorem Network.addrKind_of_transport? {n : Network} {t : Transport} (h : n.transport? = some t) :
    n.addrKind ≠ .localPath := by
  cases n <;> simp_all [Network.addrKind, Network.transport?]

namespace Target

variable {n : Network} {services : Services} {address host : Text}

/-! ## The parts of an address -/

theorem endpoint_of_error {e : ResolveError} (h : endpoint n services address = .error e) :
    IsMalformed n services address ∧ e.kind = .malformedInput := by
  unfold endpoint at h
  split at h
  · cases h
  · rename_i t ht
    split at h
    · rename_i e' he
      simp only [Except.error.injEq] at h
      subst h
      exact ⟨.unsplit t e' ht he, rfl⟩
    · rename_i host port hsplit
      split at h
      · rename_i e' he
        simp only [Except.error.injEq] at h
        subst h
        exact ⟨.badPort t host port e' ht hsplit he, rfl⟩
      · cases h

theorem endpoint_of_malformed (h : IsMalformed n services address) (hne : address ≠ []) :
    n.addrKind ≠ .localPath ∧ ∃ e, endpoint n services address = .error e := by
  cases h with
  | empty h => exact absurd h hne
  | unsplit t e ht h =>
    exact ⟨Network.addrKind_of_transport? ht, .malformed (.root (.address e)), by
      simp [endpoint, ht, h]⟩
  | badPort t host port e ht h hp =>
    exact ⟨Network.addrKind_of_transport? ht, .malformed e, by simp [endpoint, ht, h, hp]⟩

/-- The host that is read is the host in the address. -/
theorem hostOf?_of_endpoint {port : UInt16} (hkind : n.addrKind ≠ .localPath)
    (h : endpoint n services address = .ok (host, port)) : n.hostOf? address = some host := by
  unfold endpoint at h
  unfold Network.hostOf?
  rw [if_neg hkind]
  cases ht : n.transport? with
  | none =>
    rw [ht] at h
    simp only [Except.ok.injEq, Prod.mk.injEq] at h
    exact congrArg some h.1
  | some t =>
    rw [ht] at h
    simp only at h ⊢
    cases hsplit : splitHostPort address with
    | error e =>
      rw [hsplit] at h
      cases h
    | ok parts =>
      rw [hsplit] at h
      simp only at h ⊢
      split at h
      · cases h
      · simp only [Except.ok.injEq, Prod.mk.injEq] at h
        exact congrArg some h.1

/-- Whatever is wrong with the form of an address is found first. -/
theorem parse_of_malformed (h : IsMalformed n services address) :
    ∃ e, parse n services address = .error e ∧ e.kind = .malformedInput := by
  unfold parse
  by_cases hne : address = []
  · exact ⟨_, if_pos hne, rfl⟩
  · obtain ⟨hkind, e, he⟩ := endpoint_of_malformed h hne
    rw [if_neg hne, if_neg hkind, he]
    exact ⟨e, rfl, (endpoint_of_error he).2⟩

/-- A well-formed address asks for something that is fixed, or for what its host
asks for. -/
theorem parse_of_wellFormed (h : ¬ IsMalformed n services address) :
    (∃ a, parse n services address = .ok (.fixed a) ∧ ∀ host, n.hostOf? address = some host → host = []) ∨
      ∃ host port, endpoint n services address = .ok (host, port) ∧
        n.hostOf? address = some host ∧ host ≠ [] ∧
        parse n services address = ofHost host port := by
  have hne : address ≠ [] := fun hnil => h (.empty hnil)
  unfold parse
  rw [if_neg hne]
  by_cases hkind : n.addrKind = .localPath
  · rw [if_pos hkind]
    refine .inl ⟨_, rfl, fun host hhost => ?_⟩
    rw [Network.hostOf?, if_pos hkind] at hhost
    cases hhost
  · rw [if_neg hkind]
    split
    · rename_i e he
      exact absurd (endpoint_of_error he).1 h
    · rename_i host port hread
      have hhost := hostOf?_of_endpoint hkind hread
      by_cases hnil : host = []
      · rw [if_pos hnil]
        refine .inl ⟨_, rfl, fun host' hhost' => ?_⟩
        rw [hhost, Option.some.injEq] at hhost'
        rw [← hhost', hnil]
      · rw [if_neg hnil]
        exact .inr ⟨host, port, hread, hhost, hnil, rfl⟩

/-! ## What a host asks for -/

theorem ofHost_v4 {x : Ipv4} (h : Ipv4.parse? host = some x) (port : UInt16) :
    ofHost host port = .ok (.literal (.v4 x) none port) := by
  simp [ofHost, h]

theorem ofHost_v6 {x : Ipv6} {zone : Option Text} (h4 : Ipv4.parse? host = none)
    (h : Ipv6.parseZoned? host = some (x, zone)) (port : UInt16) :
    ofHost host port = .ok (.literal (.v6 x) zone port) := by
  simp [ofHost, h4, h]

theorem ofHost_named (h4 : Ipv4.parse? host = none) (h6 : Ipv6.parseZoned? host = none)
    (port : UInt16) :
    ofHost host port =
      match Domain.parse? (splitHostZone host).1 with
      | some d => .ok (.name d (zone? (splitHostZone host).2) port)
      | none => .error (.resolution (.root .invalidDomain)) := by
  cases hname : Domain.parse? (splitHostZone host).1 with
  | none => simp [ofHost, h4, h6, hname]
  | some d => simp [ofHost, h4, h6, hname]

/-- What a host that is not empty asks for, by what the host is. -/
inductive OfHost (host : Text) (port : UInt16) : Except ResolveError Target → Prop where
  | v4 (x : Ipv4) (h4 : Ipv4.parse? host = some x) :
      OfHost host port (.ok (.literal (.v4 x) none port))
  | v6 (x : Ipv6) (zone : Option Text) (h4 : Ipv4.parse? host = none)
      (h6 : Ipv6.parseZoned? host = some (x, zone)) :
      OfHost host port (.ok (.literal (.v6 x) zone port))
  | name (name : Domain) (h4 : Ipv4.parse? host = none) (h6 : Ipv6.parseZoned? host = none)
      (hname : Domain.parse? (splitHostZone host).1 = some name) :
      OfHost host port (.ok (.name name (zone? (splitHostZone host).2) port))
  | noName (h4 : Ipv4.parse? host = none) (h6 : Ipv6.parseZoned? host = none)
      (hname : Domain.parse? (splitHostZone host).1 = none) :
      OfHost host port (.error (.resolution (.root .invalidDomain)))

theorem ofHost_cases (host : Text) (port : UInt16) : OfHost host port (ofHost host port) := by
  cases h4 : Ipv4.parse? host with
  | some x =>
    rw [ofHost_v4 h4]
    exact .v4 x h4
  | none =>
    cases h6 : Ipv6.parseZoned? host with
    | some p =>
      obtain ⟨x, zone⟩ := p
      rw [ofHost_v6 h4 h6]
      exact .v6 x zone h4 h6
    | none =>
      rw [ofHost_named h4 h6]
      cases hname : Domain.parse? (splitHostZone host).1 with
      | some name => exact .name name h4 h6 hname
      | none => exact .noName h4 h6 hname

/-! ## Narrowing -/

/-- On a network whose addresses have IP addresses, narrowing fails exactly if
it leaves nothing. -/
theorem narrowed_eq_error_iff {c : Capability} {zone : Option Text} {port : UInt16} {ips : List Ip}
    {e : ResolveError} (hkind : n.addrKind ≠ .localPath) :
    narrowed c n zone port ips = .error e ↔
      e = .noSuitableAddress ∧ ∀ ip ∈ ips, c.narrow? ip n.family zone.isSome = none := by
  have hmake : ∀ ip, ∃ a, NetAddr.withIp? n.addrKind (.withZone ip zone) port = some a := by
    intro ip
    cases hk : n.addrKind with
    | localPath => exact absurd hk hkind
    | stream | datagram | rawIp => exact ⟨_, rfl⟩
  have hempty : ((ips.filterMap fun ip => c.narrow? ip n.family zone.isSome).filterMap fun ip =>
      NetAddr.withIp? n.addrKind (.withZone ip zone) port) = [] ↔
        ∀ ip ∈ ips, c.narrow? ip n.family zone.isSome = none := by
    rw [List.filterMap_eq_nil_iff]
    constructor
    · intro h ip hip
      cases hnarrow : c.narrow? ip n.family zone.isSome with
      | none => rfl
      | some x =>
        obtain ⟨a, ha⟩ := hmake x
        have := h x (List.mem_filterMap.2 ⟨ip, hip, hnarrow⟩)
        rw [ha] at this; cases this
    · intro h x hx
      obtain ⟨ip, hip, hnarrow⟩ := List.mem_filterMap.1 hx
      rw [h ip hip] at hnarrow; cases hnarrow
  unfold narrowed
  simp only
  split
  · rename_i hnil
    simp only [Except.error.injEq]
    constructor
    · intro he
      subst he
      exact ⟨rfl, fun _ h => hempty.1 hnil _ h⟩
    · intro h
      rw [h.1]
  · rename_i hnil
    constructor
    · intro h; cases h
    · intro h
      exact absurd (hempty.2 h.2) hnil

/-- Every address that is left comes from an IP address that narrowing
leaves. -/
theorem mem_of_narrowed {c : Capability} {zone : Option Text} {port : UInt16} {ips : List Ip}
    {l : AddrList} (h : narrowed c n zone port ips = .ok l) {a : NetAddr} (ha : a ∈ l.addrs) :
    ∃ ip ∈ ips, ∃ out, c.narrow? ip n.family zone.isSome = some out ∧
      NetAddr.withIp? n.addrKind (.withZone out zone) port = some a := by
  unfold narrowed at h
  simp only at h
  split at h
  · cases h
  · cases h
    obtain ⟨out, hout, hmake⟩ := List.mem_filterMap.1 ha
    obtain ⟨ip, hip, hnarrow⟩ := List.mem_filterMap.1 hout
    exact ⟨ip, hip, out, hnarrow, hmake⟩

/-- An IP address that is narrowed to itself is left alone. -/
theorem narrowed_of_narrow?_self {c : Capability} {ip : Ip} {zone : Option Text} {port : UInt16}
    {a : NetAddr} (hnarrow : c.narrow? ip n.family zone.isSome = some ip)
    (hmake : NetAddr.withIp? n.addrKind (.withZone ip zone) port = some a) :
    narrowed c n zone port [ip] = .ok ⟨n.addrKind, [a]⟩ := by
  simp [narrowed, hnarrow, hmake]

end Target
end NetDial
