import NetDial.Proofs.Dial.Settled

/-!
# What a resolution finds

The addresses that a resolution comes to are the IP addresses of the host, each
narrowed on its own: those that narrowing drops are missing, the others keep
their order, and none is added (`IsNarrowed`). All of them have the kind of the
network, the port in the address and the zone in the host. A zone or a network
that is pinned to a family leaves only the addresses that can have it. A host
that is absent stands for one unspecified address.

**Results.**
* `narrowed_isNarrowed`: what narrowing leaves of the addresses of a host.
* `IsNarrowed.only_v6`, `IsNarrowed.only_v4`, `IsNarrowed.not_v4_of_zone`: the
  families of what is left.
* `resolve_unspecified`: what an absent host comes to.
* `resolution_sound`: what every resolution comes to that does not fail.
-/
namespace NetDial

/-- The port that an address names: what its port text stands for on a network
with ports, and none on the others. -/
inductive NamesPort (n : Network) (services : Services) (address : Text) : Option UInt16 → Prop where
  | portless (h : n.transport? = none) : NamesPort n services address none
  | read (t : Transport) (host text : Text) (port : UInt16) (ht : n.transport? = some t)
      (hsplit : splitHostPort address = .ok (host, text))
      (hport : parsePort t text services = .ok port) : NamesPort n services address (some port)

/-- The list is what narrowing leaves of these IP addresses, in their order, and
each address has this zone and this port. -/
structure IsNarrowed (c : Capability) (n : Network) (zone : Option Text) (port : Option UInt16)
    (ips : List Ip) (l : AddrList) : Prop where
  nonempty : l.addrs ≠ []
  kind : l.kind = n.addrKind
  homogeneous : l.Homogeneous
  ports : ∀ a ∈ l.addrs, a.port? = port
  zones : ∀ a ∈ l.addrs, a.zone? = zone
  ips : l.addrs.map NetAddr.ip? =
    (ips.filterMap fun ip => c.narrow? ip n.family zone.isSome).map some

namespace IsNarrowed

variable {c : Capability} {n : Network} {zone : Option Text} {port : Option UInt16}
  {ips : List Ip} {l : AddrList} {a : NetAddr}

/-- Each address that is left comes from an IP address that narrowing leaves. -/
theorem ip_of_mem (H : IsNarrowed c n zone port ips l) (ha : a ∈ l.addrs) :
    ∃ ip ∈ ips, ∃ out, c.narrow? ip n.family zone.isSome = some out ∧ a.ip? = some out := by
  have hmem : a.ip? ∈ l.addrs.map NetAddr.ip? := List.mem_map_of_mem ha
  rw [H.ips] at hmem
  obtain ⟨out, hout, hip⟩ := List.mem_map.1 hmem
  obtain ⟨ip, hin, hnarrow⟩ := List.mem_filterMap.1 hout
  exact ⟨ip, hin, out, hnarrow, hip.symm⟩

theorem exists_mem (H : IsNarrowed c n zone port ips l) : ∃ a, a ∈ l.addrs :=
  List.exists_mem_of_ne_nil l.addrs H.nonempty

/-- A network pinned to IPv6 has no other addresses, nor has a zone. -/
theorem only_v6 (H : IsNarrowed c n zone port ips l) (h : n.family = .v6 ∨ zone.isSome = true) :
    c.ipv6 = true ∧ ∀ a ∈ l.addrs, ∃ x, a.ip? = some (.v6 x) ∧ x.mapped? = none := by
  have hone : ∀ a ∈ l.addrs, c.ipv6 = true ∧ ∃ x, a.ip? = some (.v6 x) ∧ x.mapped? = none := by
    intro a ha
    obtain ⟨ip, -, out, hnarrow, hip⟩ := H.ip_of_mem ha
    rw [Capability.narrow?_eq_ipv6Only? c ip h] at hnarrow
    obtain ⟨-, h6, x, rfl, hmapped⟩ := Capability.of_ipv6Only? hnarrow
    exact ⟨h6, x, hip, hmapped⟩
  obtain ⟨a, ha⟩ := H.exists_mem
  exact ⟨(hone a ha).1, fun b hb => (hone b hb).2⟩

/-- A network pinned to IPv4 has no other addresses, if there is no zone. -/
theorem only_v4 (H : IsNarrowed c n zone port ips l) (h : n.family = .v4) (hzone : zone = none) :
    c.ipv4 = true ∧ ∀ a ∈ l.addrs, ∃ x, a.ip? = some (.v4 x) := by
  have hone : ∀ a ∈ l.addrs, c.ipv4 = true ∧ ∃ x, a.ip? = some (.v4 x) := by
    intro a ha
    obtain ⟨ip, -, out, hnarrow, hip⟩ := H.ip_of_mem ha
    rw [h, hzone] at hnarrow
    obtain ⟨h4, x, rfl⟩ := Capability.of_ipv4Only? hnarrow
    exact ⟨h4, x, hip⟩
  obtain ⟨a, ha⟩ := H.exists_mem
  exact ⟨(hone a ha).1, fun b hb => (hone b hb).2⟩

/-- No IPv4 address has a zone, in whatever form. -/
theorem not_v4_of_zone (H : IsNarrowed c n zone port ips l) (ha : a ∈ l.addrs)
    (hzone : a.zone?.isSome = true) {ip : Ip} (hip : a.ip? = some ip) : ip.asV4? = none := by
  rw [H.zones a ha] at hzone
  obtain ⟨x, hx, hmapped⟩ := (H.only_v6 (.inr hzone)).2 a ha
  rw [hip, Option.some.injEq] at hx
  rw [hx]
  exact hmapped

end IsNarrowed

/-! ## Narrowing the addresses of a host -/

namespace Target

variable {n : Network} {services : Services} {address host : Text} {port : UInt16}

/-- An address is made with what it is made of. -/
theorem withIp?_parts {x : ScopedIp} {a : NetAddr} (h : NetAddr.withIp? n.addrKind x port = some a) :
    a.kind = n.addrKind ∧ a.port? = n.transport?.map (fun _ => port) ∧ a.scopedIp? = some x := by
  cases n with
  | unix type => cases h
  | tcp f | udp f | ip f protocol => cases h; exact ⟨rfl, rfl, rfl⟩

theorem exists_withIp? (hkind : n.addrKind ≠ .localPath) (x : ScopedIp) (port : UInt16) :
    ∃ a, NetAddr.withIp? n.addrKind x port = some a := by
  cases n with
  | unix type => exact absurd rfl hkind
  | tcp f | udp f | ip f protocol => exact ⟨_, rfl⟩

theorem narrowed_isNarrowed {c : Capability} {zone : Option Text} {ips : List Ip} {l : AddrList}
    (hkind : n.addrKind ≠ .localPath) (hzone : ∀ z, zone = some z → z ≠ [])
    (h : narrowed c n zone port ips = .ok l) :
    IsNarrowed c n zone (n.transport?.map fun _ => port) ips l := by
  have hparts : ∀ a ∈ l.addrs, a.kind = n.addrKind ∧
      a.port? = n.transport?.map (fun _ => port) ∧ a.zone? = zone := by
    intro a ha
    obtain ⟨ip, -, out, -, hmake⟩ := mem_of_narrowed h ha
    rw [ScopedIp.withZone_of_ne_nil out hzone] at hmake
    obtain ⟨hk, hp, hx⟩ := withIp?_parts hmake
    exact ⟨hk, hp, by rw [NetAddr.zone?, hx]; rfl⟩
  have hips : (fun out => (NetAddr.withIp? n.addrKind (.withZone out zone) port).map NetAddr.ip?) =
      some ∘ some := by
    funext out
    obtain ⟨a, ha⟩ := exists_withIp? hkind (.withZone out zone) port
    rw [ha, Option.map_some, NetAddr.ip?, (withIp?_parts ha).2.2]
    rfl
  unfold narrowed at h
  simp only at h
  split at h
  · cases h
  · rename_i hne
    cases h
    refine ⟨hne, rfl, fun a ha => (hparts a ha).1, fun a ha => (hparts a ha).2.1,
      fun a ha => (hparts a ha).2.2, ?_⟩
    rw [List.map_filterMap, hips, List.filterMap_eq_map]

/-! ## The port of an address -/

theorem namesPort_of_endpoint (h : endpoint n services address = .ok (host, port)) :
    NamesPort n services address (n.transport?.map fun _ => port) := by
  unfold endpoint at h
  cases ht : n.transport? with
  | none => exact .portless ht
  | some t =>
    rw [ht] at h
    simp only at h
    split at h
    · cases h
    · rename_i host' text hsplit
      split at h
      · cases h
      · rename_i p hport
        simp only [Except.ok.injEq, Prod.mk.injEq] at h
        exact .read t host' text port ht hsplit (h.2 ▸ hport)

end Target

namespace Session

variable {s : Session} {d : Directory} {deadline : Option Nat} {n : Network} {address : Text}

/-- An absent host is the unspecified address of the family, and nobody is
asked. -/
theorem resolve_unspecified {t : Transport} {text : Text} {port : UInt16}
    (ht : n.transport? = some t) (hsplit : splitHostPort address = .ok ([], text))
    (hport : parsePort t text d.services = .ok port) :
    s.resolve d deadline n address =
      (some (.ok ⟨n.addrKind, [Target.unspecified n port]⟩), s) := by
  have hne : address ≠ [] := by
    intro hnil
    rw [hnil] at hsplit
    cases hsplit
  have hread : Target.endpoint n d.services address = .ok ([], port) := by
    simp [Target.endpoint, ht, hsplit, hport]
  have hparse : Target.parse n d.services address = .ok (.fixed (Target.unspecified n port)) := by
    unfold Target.parse
    rw [if_neg hne, if_neg (Network.addrKind_of_transport? ht), hread]
    rfl
  simp only [resolve, hparse]

/-- **Soundness.** A resolution of an address with a host that does not fail
comes to what narrowing leaves of the IP addresses of the host, which are those
of the literal or of the lookup, in their order; there is something left, with
the kind of the network, the port in the address and the zone in the host. If
the network is pinned to IPv6 or there is a zone, then all that is left is IPv6
and unmapped, and the host has IPv6; if it is pinned to IPv4 and there is no
zone, then all is IPv4, and the host has IPv4. So a zone never goes with an IPv4
address. An address whose host is absent comes to the unspecified address of the
family, IPv4 unless that is IPv6, with the port. -/
theorem resolution_sound (s : Session) (d : Directory) (deadline : Option Nat) (n : Network)
    (address : Text) :
    (∀ host l, n.hostOf? address = some host → host ≠ [] →
      (s.resolve d deadline n address).1 = some (.ok l) →
      let zone := zone? (splitHostZone host).2
      ∃ ips port, HasIps s d deadline n address ips zone ∧
        NamesPort n d.services address port ∧ IsNarrowed d.capability n zone port ips l ∧
        (n.family = .v6 ∨ zone.isSome = true → d.capability.ipv6 = true ∧
          ∀ a ∈ l.addrs, ∃ x, a.ip? = some (.v6 x) ∧ x.mapped? = none) ∧
        (n.family = .v4 → zone = none → d.capability.ipv4 = true ∧
          ∀ a ∈ l.addrs, ∃ x, a.ip? = some (.v4 x)) ∧
        ∀ a ∈ l.addrs, a.zone?.isSome = true → ∀ ip, a.ip? = some ip → ip.asV4? = none) ∧
    ∀ t text port, n.transport? = some t → splitHostPort address = .ok ([], text) →
      parsePort t text d.services = .ok port →
      ∃ a, s.resolve d deadline n address = (some (.ok ⟨n.addrKind, [a]⟩), s) ∧
        a.kind = n.addrKind ∧ a.port? = some port ∧ a.zone? = none ∧
        a.ip? = some (if n.family = .v6 then .v6 .unspecified else .v4 .unspecified) := by
  refine ⟨?_, fun t text port ht hsplit hport => ?_⟩
  · intro host l hhost hne h zone
    obtain ⟨ips, port, hread, hips, hl⟩ := resolve_ok hhost hne h
    have hzone : ∀ z, zone = some z → z ≠ [] := fun z hz => (zone?_eq_some_iff.1 hz).2
    have H := Target.narrowed_isNarrowed (hostOf?_addrKind hhost) hzone hl
    exact ⟨ips, _, hips, Target.namesPort_of_endpoint hread, H, H.only_v6, H.only_v4,
      fun a ha hz ip hip => H.not_v4_of_zone ha hz hip⟩
  · refine ⟨Target.unspecified n port, resolve_unspecified ht hsplit hport, ?_⟩
    cases n with
    | tcp f | udp f => cases f <;> exact ⟨rfl, rfl, rfl, rfl⟩
    | ip f protocol => cases ht
    | unix type => cases ht

/-- Of the two addresses of a name with a zone the IPv4 address is dropped. -/
theorem resolution_sound_zoned :
    (Network.tcp .any).hostOf? "router%eth0:https".toList = some "router%eth0".toList ∧
      (nobodyKnown.resolve routerDirectory none (.tcp .any) "router%eth0:https".toList).1 =
        some (.ok ⟨.stream, [routerAddr]⟩) ∧
      ∃ ips port, HasIps nobodyKnown routerDirectory none (.tcp .any) "router%eth0:https".toList ips
          (some "eth0".toList) ∧
        NamesPort (.tcp .any) .wellKnown "router%eth0:https".toList port ∧
        IsNarrowed .dualStack (.tcp .any) (some "eth0".toList) port ips ⟨.stream, [routerAddr]⟩ := by
  have hhost : (Network.tcp .any).hostOf? "router%eth0:https".toList =
      some "router%eth0".toList := by decide
  have hres : (nobodyKnown.resolve routerDirectory none (.tcp .any) "router%eth0:https".toList).1 =
      some (.ok ⟨.stream, [routerAddr]⟩) := rfl
  obtain ⟨ips, port, hips, hport, hnarrowed, -⟩ :=
    (resolution_sound nobodyKnown routerDirectory none (.tcp .any) _).1 _ _ hhost (by decide) hres
  exact ⟨hhost, hres, ips, port, hips, hport, hnarrowed⟩

end Session
end NetDial
