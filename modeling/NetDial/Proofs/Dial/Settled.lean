import NetDial.Proofs.Address.NetAddr
import NetDial.Proofs.Capability
import NetDial.Proofs.Dial.Resolution
import NetDial.Proofs.Service

/-!
# Resolving what was resolved

An address that a resolution came to may be written down and resolved again. It
is settled (`IsSettled`): its text is a literal whose zone has no sign that
would cut the text elsewhere, and narrowing leaves it as it is. So its text is
resolved to the address itself, and nobody is asked.

**Results.**
* `isSettled_of_resolve`: what a resolution comes to is settled.
* `parse_text_of_isSettled`: the text of a settled address asks for a literal.
* `resolve_text_of_resolved`: it is resolved to the address alone.
-/
namespace NetDial

/-- An address on a network by its IP address and port, if narrowing leaves it
alone and its text can be read on the network. -/
structure IsSettled (c : Capability) (n : Network) (x : ScopedIp) (port : UInt16) (a : NetAddr) :
    Prop where
  made : NetAddr.withIp? n.addrKind x port = some a
  literal : x.HasLiteral
  zone : n.transport?.isSome = true → ∀ z, x.zone = some z → NoBrackets z
  narrow : c.narrow? x.ip n.family x.zone.isSome = some x.ip

/-! ## What a resolution comes to -/

section

variable {s : Session} {d : Directory} {deadline : Option Nat} {n : Network} {address host : Text}

/-- On a network with ports a host has no brackets. -/
theorem noBrackets_of_hostOf? (h : n.hostOf? address = some host)
    (hports : n.transport?.isSome = true) : NoBrackets host := by
  unfold Network.hostOf? at h
  split at h
  · cases h
  · split at h
    · rename_i hnone
      rw [hnone] at hports; cases hports
    · split at h
      · rename_i hsplit
        cases h
        exact (splitHostPort_eq_ok_iff.1 hsplit).noBrackets
      · cases h

theorem isSettled_of_resolve {l : AddrList} {a : NetAddr} (hhost : n.hostOf? address = some host)
    (hne : host ≠ []) (h : (s.resolve d deadline n address).1 = some (.ok l)) (ha : a ∈ l.addrs) :
    ∃ x port, IsSettled d.capability n x port a := by
  obtain ⟨ips, port, -, -, hl⟩ := Session.resolve_ok hhost hne h
  generalize hread : zone? (splitHostZone host).2 = zone at hl
  obtain ⟨ip, -, out, hnarrow, hmake⟩ := Target.mem_of_narrowed hl ha
  have hzone : ∀ z, zone = some z → z = (splitHostZone host).2 ∧ z ≠ [] := by
    intro z hz
    obtain ⟨hsplit, hnil⟩ := zone?_eq_some_iff.1 (hread.trans hz)
    exact ⟨hsplit.symm, hnil⟩
  have hkeep : ScopedIp.withZone out zone = ⟨out, zone⟩ :=
    ScopedIp.withZone_of_ne_nil out fun z hz => (hzone z hz).2
  refine ⟨⟨out, zone⟩, port, hkeep ▸ hmake, ?_, ?_, Capability.narrow?_of_narrow? hnarrow⟩
  · intro z hz
    simp only at hz
    subst hz
    obtain ⟨hsplit, hnil⟩ := hzone z rfl
    exact ⟨Capability.isV6_of_narrow?_zoned hnarrow, hnil, hsplit ▸ not_mem_splitHostZone host⟩
  · intro hports z hz
    have hbare := noBrackets_of_hostOf? hhost hports
    rw [(hzone z hz).1]
    exact ⟨fun hmem => hbare.opening (mem_of_mem_splitHostZone hmem),
      fun hmem => hbare.closing (mem_of_mem_splitHostZone hmem)⟩

end

/-! ## What the text of a settled address asks for -/

namespace Target

theorem ofHost_of_parse? {host : Text} {x : ScopedIp} (h : ScopedIp.parse? host = some x)
    (port : UInt16) : ofHost host port = .ok (.literal x.ip x.zone port) := by
  rcases ScopedIp.parse?_eq_some_iff.1 h with ⟨y, h4, rfl⟩ | ⟨h4, y, zone, h6, rfl⟩
  · exact ofHost_v4 h4 port
  · exact ofHost_v6 h4 h6 port

variable {c : Capability} {n : Network} {x : ScopedIp} {port : UInt16} {a : NetAddr}

/-- The text of a settled address is its IP address and, on a network with
ports, its port. -/
theorem endpoint_text_of_isSettled (h : IsSettled c n x port a) (services : Services) :
    n.addrKind ≠ .localPath ∧ ∃ p, endpoint n services a.text = .ok (x.text, p) ∧
      NetAddr.withIp? n.addrKind x p = some a := by
  have hmade := h.made
  cases n with
  | tcp f | udp f =>
    have hsplit := splitHostPort_of_isEndpoint
      (ScopedIp.isEndpoint_endpointText h.literal (h.zone rfl) port)
    cases hmade
    refine ⟨by simp [Network.addrKind], port, ?_, rfl⟩
    simp [endpoint, Network.transport?, NetAddr.text, hsplit, parsePort_decimal]
  | ip f protocol =>
    cases hmade
    exact ⟨by simp [Network.addrKind], 0, rfl, rfl⟩
  | unix type => cases hmade

theorem parse_text_of_isSettled (h : IsSettled c n x port a) (services : Services) :
    ∃ p, parse n services a.text = .ok (.literal x.ip x.zone p) ∧
      NetAddr.withIp? n.addrKind x p = some a := by
  obtain ⟨hkind, p, hread, hmade⟩ := endpoint_text_of_isSettled h services
  have hhost : x.text ≠ [] := ScopedIp.text_ne_nil h.literal
  have hne : a.text ≠ [] := by
    intro hnil
    rw [hnil] at hread
    cases n with
    | tcp f | udp f => cases hread
    | ip f protocol => exact hhost (Prod.mk.inj (Except.ok.inj hread)).1.symm
    | unix type => exact absurd rfl hkind
  refine ⟨p, ?_, hmade⟩
  unfold parse
  rw [if_neg hne, if_neg hkind, hread]
  simp only [if_neg hhost]
  exact ofHost_of_parse? (ScopedIp.parse?_text_of_hasLiteral h.literal) p

end Target

namespace Session

/-- **Stability.** Each address that a resolution of a host comes to is written
as a text that is resolved to this address alone, whatever resolver, services and
deadline there are then. Nothing happens in the session meanwhile, so no server
is asked. -/
theorem resolve_text_of_resolved {s : Session} {d : Directory} {deadline : Option Nat}
    {n : Network} {address host : Text} {l : AddrList} {a : NetAddr}
    (hhost : n.hostOf? address = some host) (hne : host ≠ [])
    (h : (s.resolve d deadline n address).1 = some (.ok l)) (ha : a ∈ l.addrs)
    (t : Session) (e : Directory) (he : e.capability = d.capability) (deadline' : Option Nat) :
    t.resolve e deadline' n a.text = (some (.ok ⟨n.addrKind, [a]⟩), t) := by
  obtain ⟨x, port, hset⟩ := isSettled_of_resolve hhost hne h ha
  obtain ⟨p, hparse, hmade⟩ := Target.parse_text_of_isSettled hset e.services
  have hkeep : ScopedIp.withZone x.ip x.zone = x :=
    ScopedIp.withZone_of_ne_nil x.ip fun z hz => (hset.literal z hz).2.1
  have hleft : Target.narrowed e.capability n x.zone p [x.ip] = .ok ⟨n.addrKind, [a]⟩ :=
    Target.narrowed_of_narrow?_self (he ▸ hset.narrow) (hkeep.symm ▸ hmade)
  simp only [resolve, hparse, hleft]

/-- A directory that knows a host by an IPv4 and by a link-local address. -/
def routerDirectory : Directory where
  resolver := .table (Table.empty.insert ⟨"router".toList, by decide⟩
    [.v4 ⟨10, 0, 0, 1⟩, .v6 ⟨[0xfe80, 0, 0, 0, 0, 0, 0, 1], rfl⟩])
  capability := .dualStack
  services := .wellKnown

/-- The link-local address of that host on a link, and the port of a service. -/
def routerAddr : NetAddr :=
  .stream ⟨.v6 ⟨[0xfe80, 0, 0, 0, 0, 0, 0, 1], rfl⟩, some "eth0".toList⟩ 443

/-- The address of a name with a zone is resolved again without the table that
had the name. -/
theorem resolve_text_of_resolved_zoned :
    ((Network.tcp .any).hostOf? "router%eth0:https".toList = some "router%eth0".toList ∧
        "router%eth0".toList ≠ []) ∧
      (nobodyKnown.resolve routerDirectory none (.tcp .any) "router%eth0:https".toList).1 =
        some (.ok ⟨.stream, [routerAddr]⟩) ∧
      routerAddr.text = "[fe80::1%eth0]:443".toList ∧
      nobodyKnown.resolve { routerDirectory with resolver := .system } (some 5) (.tcp .any)
        routerAddr.text = (some (.ok ⟨.stream, [routerAddr]⟩), nobodyKnown) := by
  have hhost : (Network.tcp .any).hostOf? "router%eth0:https".toList =
      some "router%eth0".toList := by decide
  have hres : (nobodyKnown.resolve routerDirectory none (.tcp .any) "router%eth0:https".toList).1 =
      some (.ok ⟨.stream, [routerAddr]⟩) := rfl
  have hmem : routerAddr ∈ [routerAddr] := List.mem_singleton.2 rfl
  exact ⟨⟨hhost, by decide⟩, hres, by cbv, resolve_text_of_resolved hhost (by decide) hres hmem
    nobodyKnown { routerDirectory with resolver := .system } rfl (some 5)⟩

end Session
end NetDial
