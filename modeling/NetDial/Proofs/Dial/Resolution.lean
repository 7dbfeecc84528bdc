import NetDial.Dial.Directory
import NetDial.Proofs.Dial.Target
import NetDial.Proofs.Ip.Scoped
import NetDial.Proofs.Session.Waiting

/-!
# How a resolution ends

A resolution that has time left fails for one of four reasons: the address is
malformed, its host is not found, the lookup of its host takes too long, or
nothing is left of the addresses of its host. Each reason is said by the address
and by when the lookup would end, and each comes to an error of its own kind.

**Results.**
* `resolve_idle`: a resolution starts no attempt.
* `resolve_of_malformed`, `resolve_of_notFound`, `resolve_of_lookupLate`,
  `resolve_of_nothingUsable`: what each reason comes to.
* `resolve_error`: there is no other reason.
* `resolve_ok`: what a resolution comes to that does not fail.
-/
namespace NetDial.Session

/-- The host is a name that is none, or its lookup ends in time with an
error. -/
inductive NotFound (s : Session) (d : Directory) (deadline : Option Nat) (n : Network)
    (address : Text) : Prop where
  | notName (host : Text) (h : IsNamed n address host)
      (hname : isDomainName (splitHostZone host).1 = false)
  | failed (host : Text) (name : Domain) (u : Nat) (e : Error) (h : IsNamed n address host)
      (hname : Domain.parse? (splitHostZone host).1 = some name)
      (hend : s.lookupEnd? d.resolver name = some (u, .error e))
      (hin : ∀ t, deadline = some t → u < t)

/-- The host is a name whose lookup has not ended at the deadline. -/
structure LookupLate (s : Session) (d : Directory) (deadline : Option Nat) (n : Network)
    (address host : Text) (name : Domain) (t : Nat) : Prop where
  named : IsNamed n address host
  isName : Domain.parse? (splitHostZone host).1 = some name
  bounded : deadline = some t
  late : ∀ u a, s.lookupEnd? d.resolver name = some (u, a) → t ≤ u

/-- The IP addresses of the host of an address, and its zone: a literal stands
for itself, and a name for what its lookup finds in time. -/
inductive HasIps (s : Session) (d : Directory) (deadline : Option Nat) (n : Network)
    (address : Text) : List Ip → Option Text → Prop where
  | v4 (host : Text) (x : Ipv4) (h : n.hostOf? address = some host)
      (hx : Ipv4.parse? host = some x) : HasIps s d deadline n address [.v4 x] none
  | v6 (host : Text) (x : Ipv6) (zone : Option Text) (h : n.hostOf? address = some host)
      (h4 : Ipv4.parse? host = none) (hx : Ipv6.parseZoned? host = some (x, zone)) :
      HasIps s d deadline n address [.v6 x] zone
  | found (host : Text) (name : Domain) (u : Nat) (ips : List Ip) (h : IsNamed n address host)
      (hname : Domain.parse? (splitHostZone host).1 = some name)
      (hend : s.lookupEnd? d.resolver name = some (u, .ok ips))
      (hin : ∀ t, deadline = some t → u < t) :
      HasIps s d deadline n address ips (zone? (splitHostZone host).2)

/-- The host has IP addresses, and narrowing leaves none of them. -/
def NothingUsable (s : Session) (d : Directory) (deadline : Option Nat) (n : Network)
    (address : Text) : Prop :=
  ∃ ips zone, HasIps s d deadline n address ips zone ∧
    ∀ ip ∈ ips, d.capability.narrow? ip n.family zone.isSome = none

/-- A session whose servers know no host. -/
def nobodyKnown : Session where
  servers := fun _ host _ => .noSuchHost host

variable {s : Session} {d : Directory} {deadline : Option Nat} {n : Network} {address : Text}

theorem resolveName_idle (host : Domain) (zone : Option Text) (port : UInt16) :
    Idle s (s.resolveName d deadline n host zone port).2 := by
  have hidle := lookup_idle s d.resolver deadline host
  unfold resolveName
  split
  · exact .refl s
  · split <;> rename_i h <;> rw [h] at hidle <;> exact hidle

/-- A resolution lets time pass and does nothing else. -/
theorem resolve_idle (s : Session) (d : Directory) (deadline : Option Nat) (n : Network)
    (address : Text) : Idle s (s.resolve d deadline n address).2 := by
  unfold resolve
  split
  · exact .refl s
  · exact .refl s
  · exact .refl s
  · exact resolveName_idle _ _ _

/-- What the resolution of a name comes to, by the end of its lookup. -/
def nameResult (c : Capability) (n : Network) (zone : Option Text) (port : UInt16) :
    Awaited → Option (Except ResolveError AddrList)
  | .answered (.ok ips) => some (Target.narrowed c n zone port ips)
  | .answered (.error e) => some (.error (.resolution e))
  | .late => some (.error .timeout)
  | .forever => none

theorem in_time_of_lt {deadline : Option Nat} {now t : Nat} (ht : deadline = some t)
    (hs : now < t) : ∀ u, deadline = some u → now < u := by
  intro u hu
  rw [ht, Option.some.injEq] at hu
  exact hu ▸ hs

theorem not_passed {deadline : Option Nat} {now : Nat} (ht : ∀ t, deadline = some t → now < t) :
    (deadline.any fun t => t ≤ now) = false := by
  cases deadline with
  | none => rfl
  | some t => simpa using ht t rfl

/-- While there is time, a name is resolved by its lookup. -/
theorem resolveName_eq_lookup (ht : ∀ t, deadline = some t → s.now < t) (host : Domain)
    (zone : Option Text) (port : UInt16) :
    s.resolveName d deadline n host zone port =
      (nameResult d.capability n zone port (s.lookup d.resolver deadline host).1,
        (s.lookup d.resolver deadline host).2) := by
  unfold resolveName
  rw [not_passed ht]
  simp only [Bool.false_eq_true, if_false]
  split <;> rename_i h <;> rw [h] <;> rfl

theorem resolveName_eq (ht : ∀ t, deadline = some t → s.now < t) (host : Domain)
    (zone : Option Text) (port : UInt16) :
    (s.resolveName d deadline n host zone port).1 =
      nameResult d.capability n zone port (cutOff deadline (s.lookupEnd? d.resolver host)) := by
  rw [resolveName_eq_lookup ht, lookup_eq_cutOff d.resolver host ht]

theorem hostOf?_addrKind {host : Text} (h : n.hostOf? address = some host) :
    n.addrKind ≠ .localPath := by
  intro hkind
  rw [Network.hostOf?, if_pos hkind] at h
  cases h

/-- A well-formed address with a host is resolved by its host. -/
theorem parse_of_host {services : Services} {host : Text}
    (hw : ¬ IsMalformed n services address) (h : n.hostOf? address = some host) (hne : host ≠ []) :
    ∃ port, Target.endpoint n services address = .ok (host, port) ∧
      Target.parse n services address = Target.ofHost host port := by
  rcases Target.parse_of_wellFormed hw with ⟨a, -, hnil⟩ | ⟨host', port, hread, hhost, -, hparse⟩
  · exact absurd (hnil host h) hne
  · rw [h, Option.some.injEq] at hhost
    subst hhost
    exact ⟨port, hread, hparse⟩

theorem resolve_of_named {host : Text} {name : Domain} (s : Session) (deadline : Option Nat)
    (hw : ¬ IsMalformed n d.services address) (h : IsNamed n address host)
    (hname : Domain.parse? (splitHostZone host).1 = some name) :
    ∃ port, Target.endpoint n d.services address = .ok (host, port) ∧
      s.resolve d deadline n address =
        s.resolveName d deadline n name (zone? (splitHostZone host).2) port := by
  obtain ⟨port, hread, hparse⟩ := parse_of_host hw h.inAddress h.nonempty
  rw [Target.ofHost_named h.notV4 h.notV6, hname] at hparse
  exact ⟨port, hread, by simp only [resolve, hparse]⟩

/-! ## The four reasons -/

theorem resolve_of_malformed (h : IsMalformed n d.services address) :
    ∃ e, (s.resolve d deadline n address).1 = some (.error e) ∧ e.kind = .malformedInput := by
  obtain ⟨e, hparse, hkind⟩ := Target.parse_of_malformed h
  exact ⟨e, by simp only [resolve, hparse], hkind⟩

theorem resolve_of_notFound (hw : ¬ IsMalformed n d.services address)
    (ht : ∀ t, deadline = some t → s.now < t) (h : NotFound s d deadline n address) :
    ∃ e, (s.resolve d deadline n address).1 = some (.error e) ∧ e.kind = .resolution := by
  cases h with
  | notName host h hname =>
    obtain ⟨port, -, hparse⟩ := parse_of_host hw h.inAddress h.nonempty
    rw [Target.ofHost_named h.notV4 h.notV6, Domain.parse?_eq_none_iff.2 hname] at hparse
    exact ⟨.resolution (.root .invalidDomain), by simp only [resolve, hparse], rfl⟩
  | failed host name u e h hname hend hin =>
    obtain ⟨port, -, hres⟩ := resolve_of_named s deadline hw h hname
    have hcut : cutOff deadline (s.lookupEnd? d.resolver name) = .answered (.error e) :=
      cutOff_eq_answered_iff.2 ⟨u, hend, hin⟩
    rw [hres, resolveName_eq ht, hcut]
    exact ⟨_, rfl, rfl⟩

theorem resolve_of_lookupLate {host : Text} {name : Domain} {t : Nat}
    (hw : ¬ IsMalformed n d.services address) (ht : ∀ t, deadline = some t → s.now < t)
    (h : LookupLate s d deadline n address host name t) :
    ∃ e, (s.resolve d deadline n address).1 = some (.error e) ∧ e.kind = .timeout := by
  obtain ⟨port, -, hres⟩ := resolve_of_named s deadline hw h.named h.isName
  have hcut : cutOff deadline (s.lookupEnd? d.resolver name) = .late :=
    cutOff_eq_late_iff.2 ⟨t, h.bounded, h.late⟩
  rw [hres, resolveName_eq ht, hcut]
  exact ⟨_, rfl, rfl⟩

theorem resolve_of_nothingUsable (hw : ¬ IsMalformed n d.services address)
    (ht : ∀ t, deadline = some t → s.now < t) (h : NothingUsable s d deadline n address) :
    ∃ e, (s.resolve d deadline n address).1 = some (.error e) ∧ e.kind = .noSuitableAddress := by
  obtain ⟨ips, zone, hips, hnone⟩ := h
  refine ⟨.noSuitableAddress, ?_, rfl⟩
  cases hips with
  | v4 host x hhost hx =>
    obtain ⟨port, -, hparse⟩ := parse_of_host hw hhost (ne_nil_of_literal (.inl (by simp [hx])))
    rw [Target.ofHost_v4 hx] at hparse
    simp only [resolve, hparse]
    rw [(Target.narrowed_eq_error_iff (hostOf?_addrKind hhost)).2 ⟨rfl, hnone⟩]
  | v6 host x _ hhost h4 hx =>
    obtain ⟨port, -, hparse⟩ := parse_of_host hw hhost (ne_nil_of_literal (.inr (by simp [hx])))
    rw [Target.ofHost_v6 h4 hx] at hparse
    simp only [resolve, hparse]
    rw [(Target.narrowed_eq_error_iff (hostOf?_addrKind hhost)).2 ⟨rfl, hnone⟩]
  | found host name u _ h hname hend hin =>
    obtain ⟨port, -, hres⟩ := resolve_of_named s deadline hw h hname
    have hcut : cutOff deadline (s.lookupEnd? d.resolver name) = .answered (.ok ips) :=
      cutOff_eq_answered_iff.2 ⟨u, hend, hin⟩
    rw [hres, resolveName_eq ht, hcut]
    simp only [nameResult]
    rw [(Target.narrowed_eq_error_iff (hostOf?_addrKind h.inAddress)).2 ⟨rfl, hnone⟩]

/-- A resolution that fails in time does so for one of the four reasons. -/
theorem resolve_error {e : ResolveError} (ht : ∀ t, deadline = some t → s.now < t)
    (h : (s.resolve d deadline n address).1 = some (.error e)) :
    IsMalformed n d.services address ∨ NotFound s d deadline n address ∨
      (∃ host name t, LookupLate s d deadline n address host name t) ∨
      NothingUsable s d deadline n address := by
  by_cases hw : IsMalformed n d.services address
  · exact .inl hw
  refine .inr ?_
  rcases Target.parse_of_wellFormed hw with ⟨a, hparse, -⟩ | ⟨host, port, -, hhost, hne, hparse⟩
  · simp only [resolve, hparse] at h
    cases h
  · have hkind := hostOf?_addrKind hhost
    have hcases := Target.ofHost_cases host port
    rw [← hparse] at hcases
    generalize htarget : Target.parse n d.services address = target at hcases
    cases hcases with
    | v4 x h4 =>
      simp only [resolve, htarget, Option.some.injEq] at h
      exact .inr (.inr ⟨_, _, .v4 host x hhost h4, ((Target.narrowed_eq_error_iff hkind).1 h).2⟩)
    | v6 x zone h4 h6 =>
      simp only [resolve, htarget, Option.some.injEq] at h
      exact .inr (.inr
        ⟨_, _, .v6 host x zone hhost h4 h6, ((Target.narrowed_eq_error_iff hkind).1 h).2⟩)
    | noName h4 h6 hname =>
      exact .inl (.notName host ⟨hhost, hne, h4, h6⟩ (Domain.parse?_eq_none_iff.1 hname))
    | name name h4 h6 hname =>
      have hnamed : IsNamed n address host := ⟨hhost, hne, h4, h6⟩
      simp only [resolve, htarget] at h
      rw [resolveName_eq ht] at h
      -- The lookup was answered, was late, or never ends.
      cases hcut : cutOff deadline (s.lookupEnd? d.resolver name) with
      | answered a =>
        obtain ⟨u, hend, hin⟩ := cutOff_eq_answered_iff.1 hcut
        cases a with
        | error e => exact .inl (.failed host name u e hnamed hname hend hin)
        | ok ips =>
          rw [hcut] at h
          simp only [nameResult, Option.some.injEq] at h
          exact .inr (.inr ⟨_, _, .found host name u ips hnamed hname hend hin,
            ((Target.narrowed_eq_error_iff hkind).1 h).2⟩)
      | late =>
        obtain ⟨t, hd, hlate⟩ := cutOff_eq_late_iff.1 hcut
        exact .inr (.inl ⟨host, name, t, hnamed, hname, hd, hlate⟩)
      | forever =>
        rw [hcut] at h
        cases h

/-! ## Success -/

theorem resolveName_ok {host : Domain} {zone : Option Text} {port : UInt16} {l : AddrList}
    (h : (s.resolveName d deadline n host zone port).1 = some (.ok l)) :
    ∃ u ips, s.lookupEnd? d.resolver host = some (u, .ok ips) ∧ (∀ t, deadline = some t → u < t) ∧
      Target.narrowed d.capability n zone port ips = .ok l := by
  have ht : ∀ t, deadline = some t → s.now < t := by
    intro t hd
    subst hd
    by_cases hlt : s.now < t
    · exact hlt
    · have hpassed : (s.resolveName d (some t) n host zone port).1 = some (.error .timeout) := by
        simp [resolveName, Nat.le_of_not_lt hlt]
      rw [hpassed] at h
      cases h
  rw [resolveName_eq ht] at h
  cases hcut : cutOff deadline (s.lookupEnd? d.resolver host) with
  | answered a =>
    obtain ⟨u, hend, hin⟩ := cutOff_eq_answered_iff.1 hcut
    rw [hcut] at h
    cases a with
    | error e => cases h
    | ok ips => exact ⟨u, ips, hend, hin, Option.some.inj h⟩
  | late =>
    rw [hcut] at h
    cases h
  | forever =>
    rw [hcut] at h
    cases h

/-- The zone of the IP addresses of a host is the one in the host. -/
theorem zone_of_hasIps {host : Text} {ips : List Ip} {zone : Option Text}
    (h : HasIps s d deadline n address ips zone) (hhost : n.hostOf? address = some host) :
    zone = zone? (splitHostZone host).2 := by
  cases h with
  | v4 host' x h hx =>
    rw [h, Option.some.injEq] at hhost
    subst hhost
    have hno : '%' ∉ host' := fun hmem => by
      rw [Ipv4.parse?_eq_none_of_mem hmem (by decide) (by decide)] at hx
      cases hx
    rw [splitHostZone_of_not_mem hno]
    rfl
  | v6 host' x zone h h4 hx =>
    rw [h, Option.some.injEq] at hhost
    exact hhost ▸ Ipv6.zone_of_parseZoned? hx
  | found host' name u ips h =>
    rw [h.inAddress, Option.some.injEq] at hhost
    rw [hhost]

/-- A resolution of an address with a host comes to what narrowing leaves of the
IP addresses of the host, with the zone in the host and the port of the
address. -/
theorem resolve_ok {host : Text} {l : AddrList} (hhost : n.hostOf? address = some host)
    (hne : host ≠ []) (h : (s.resolve d deadline n address).1 = some (.ok l)) :
    ∃ ips port, Target.endpoint n d.services address = .ok (host, port) ∧
      HasIps s d deadline n address ips (zone? (splitHostZone host).2) ∧
      Target.narrowed d.capability n (zone? (splitHostZone host).2) port ips = .ok l := by
  have hw : ¬ IsMalformed n d.services address := by
    intro hm
    obtain ⟨e, he, -⟩ : ∃ e, (s.resolve d deadline n address).1 = some (.error e) ∧
        e.kind = .malformedInput := resolve_of_malformed hm
    rw [he] at h
    cases h
  obtain ⟨port, hread, hparse⟩ := parse_of_host hw hhost hne
  suffices hips : ∃ ips zone, HasIps s d deadline n address ips zone ∧
      Target.narrowed d.capability n zone port ips = .ok l by
    obtain ⟨ips, zone, hips, hl⟩ := hips
    have hzone := zone_of_hasIps hips hhost
    subst hzone
    exact ⟨ips, port, hread, hips, hl⟩
  have hcases := Target.ofHost_cases host port
  rw [← hparse] at hcases
  generalize htarget : Target.parse n d.services address = target at hcases
  cases hcases with
  | v4 x h4 =>
    simp only [resolve, htarget, Option.some.injEq] at h
    exact ⟨_, _, .v4 host x hhost h4, h⟩
  | v6 x zone h4 h6 =>
    simp only [resolve, htarget, Option.some.injEq] at h
    exact ⟨_, _, .v6 host x zone hhost h4 h6, h⟩
  | noName h4 h6 hname =>
    simp only [resolve, htarget] at h
    cases h
  | name name h4 h6 hname =>
    simp only [resolve, htarget] at h
    obtain ⟨u, ips, hend, hin, hl⟩ := resolveName_ok h
    exact ⟨_, _, .found host name u ips ⟨hhost, hne, h4, h6⟩ hname hend hin, hl⟩

end NetDial.Session
