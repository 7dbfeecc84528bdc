import NetDial.Proofs.Dial.Resolution
import NetDial.Proofs.Session.Background

/-!
# When the resolver is consulted

A resolution consults the resolver for names only, with the zone taken off, and
not after the deadline. `AsksFor` says of an address which name that is, without
the parsers that decide it for the whole address.

That a resolution looks up a name once is said for all resolvers together: it
does with the resolver nothing but this lookup, and its result is made of how the
lookup ends (`LooksUpOnce`). A server as the resolver shows it on record: it is
asked once, for that name, or not at all.

**Results.**
* `isLabel_iff`: what is left of a host without its zone.
* `asksFor_iff`: an address asks for a name exactly if its target is the name.
* `looksUpOnce_of_asksFor`, `neverLooksUp_of_not`: what a resolution does with the
  resolver.
* `resolver_consulted`: it does so in these cases only.
-/
namespace NetDial

/-! ## What an address asks for -/

/-- The host without its zone: what stands before the last `%`, unless that is
the first character of the host. -/
inductive IsLabel : Text → Text → Prop where
  | zoned (label zone : Text) (hne : label ≠ []) (hzone : '%' ∉ zone) :
      IsLabel (label ++ '%' :: zone) label
  | whole (host : Text) (h : '%' ∉ host.tail) : IsLabel host host

theorem isLabel_iff {host label : Text} : IsLabel host label ↔ (splitHostZone host).1 = label := by
  constructor
  · intro h
    cases h with
    | zoned label zone hne hzone => rw [splitHostZone_append hne hzone]
    | whole host h =>
      unfold splitHostZone
      split
      · rename_i c before zone hcut
        obtain ⟨rfl, -⟩ := Text.splitLast?_eq_some_iff.1 hcut
        simp at h
      · rfl
  · rintro rfl
    unfold splitHostZone
    split
    · rename_i c before zone hcut
      obtain ⟨rfl, hzone⟩ := Text.splitLast?_eq_some_iff.1 hcut
      exact .zoned (c :: before) zone (by simp) hzone
    · rename_i hno
      refine .whole host fun hmem => ?_
      cases hcut : Text.splitLast? '%' host with
      | none => exact Text.splitLast?_eq_none_iff.1 hcut (List.mem_of_mem_tail hmem)
      | some p =>
        obtain ⟨before, zone⟩ := p
        cases before with
        | cons c before => exact hno c before zone hcut
        | nil =>
          obtain ⟨rfl, hzone⟩ := Text.splitLast?_eq_some_iff.1 hcut
          exact hzone hmem

/-- The address is well formed, and its host, which is no literal, is this domain
name, with a zone or without. -/
structure AsksFor (n : Network) (services : Services) (address : Text) (name : Domain) : Prop where
  wellFormed : ¬ IsMalformed n services address
  host : ∃ host, IsNamed n address host ∧ IsLabel host name.name

namespace Session

variable {s : Session} {c : Capability} {services : Services} {deadline : Option Nat}
  {n : Network} {address : Text} {name other : Domain}

/-- An address asks for a name exactly if the name is what it stands for. -/
theorem asksFor_iff :
    AsksFor n services address name ↔
      ∃ zone port, Target.parse n services address = .ok (.name name zone port) := by
  constructor
  · rintro ⟨hw, host, hnamed, hlabel⟩
    obtain ⟨port, -, hparse⟩ := parse_of_host hw hnamed.inAddress hnamed.nonempty
    have hname : Domain.parse? (splitHostZone host).1 = some name :=
      Domain.parse?_eq_some_iff.2 (isLabel_iff.1 hlabel)
    rw [Target.ofHost_named hnamed.notV4 hnamed.notV6, hname] at hparse
    exact ⟨_, port, hparse⟩
  · rintro ⟨zone, port, hparse⟩
    have hw : ¬ IsMalformed n services address := by
      intro hm
      obtain ⟨e, he, -⟩ := Target.parse_of_malformed hm
      rw [he] at hparse
      cases hparse
    rcases Target.parse_of_wellFormed hw with ⟨a, hfixed, -⟩ | ⟨host, port', -, hhost, hne, hread⟩
    · rw [hfixed] at hparse
      cases hparse
    · have hcases := Target.ofHost_cases host port'
      rw [← hread, hparse] at hcases
      cases hcases with
      | name _ h4 h6 hname =>
        have hlabel := isLabel_iff.2 (Domain.parse?_eq_some_iff.1 hname)
        exact ⟨hw, host, ⟨hhost, hne, h4, h6⟩, hlabel⟩

/-! ## What a resolution does with the resolver -/

/-- Of every resolver one lookup of the name is made and nothing else, and the
result is made of how the lookup ends. -/
def LooksUpOnce (s : Session) (deadline : Option Nat) (name : Domain)
    (resolution : Resolver → Option (Except ResolveError AddrList) × Session) : Prop :=
  ∃ result : Awaited → Option (Except ResolveError AddrList), ∀ r,
    resolution r = (result (s.lookup r deadline name).1, (s.lookup r deadline name).2)

/-- The resolver makes no difference, and the session is left as it is. -/
def NeverLooksUp (s : Session)
    (resolution : Resolver → Option (Except ResolveError AddrList) × Session) : Prop :=
  ∃ result, ∀ r, resolution r = (some result, s)

/-- A name that is looked up is looked up alone. -/
theorem LooksUpOnce.unique {resolution : Resolver → Option (Except ResolveError AddrList) × Session}
    (h : LooksUpOnce s deadline name resolution) (h' : LooksUpOnce s deadline other resolution) :
    name = other := by
  obtain ⟨result, hr⟩ := h
  obtain ⟨result', hr'⟩ := h'
  have hsame : (s.lookup (.server .system) deadline name).2 =
      (s.lookup (.server .system) deadline other).2 :=
    (Prod.mk.inj ((hr (.server .system)).symm.trans (hr' (.server .system)))).2
  have hname := questions_lookup_server s .system deadline name
  have hother := questions_lookup_server s .system deadline other
  rw [hsame] at hname
  have heq := (List.prefix_of_prefix_length_le hname hother (by simp)).eq_of_length (by simp)
  simpa using List.append_cancel_left heq

theorem LooksUpOnce.not_neverLooksUp
    {resolution : Resolver → Option (Except ResolveError AddrList) × Session}
    (h : LooksUpOnce s deadline name resolution) : ¬ NeverLooksUp s resolution := by
  rintro ⟨result, hnever⟩
  obtain ⟨result', hr⟩ := h
  have hsame : (s.lookup (.server .system) deadline name).2 = s :=
    (Prod.mk.inj ((hr (.server .system)).symm.trans (hnever (.server .system)))).2
  have hasked := (questions_lookup_server s .system deadline name).length_le
  rw [hsame, List.length_append] at hasked
  exact Nat.not_succ_le_self _ hasked

/-- An address that asks for a name has the name looked up while there is
time. -/
theorem looksUpOnce_of_asksFor (h : AsksFor n services address name)
    (ht : ∀ t, deadline = some t → s.now < t) :
    LooksUpOnce s deadline name (s.resolve ⟨·, c, services⟩ deadline n address) := by
  obtain ⟨zone, port, hparse⟩ := asksFor_iff.1 h
  refine ⟨nameResult c n zone port, fun r => ?_⟩
  simp only [resolve, hparse]
  exact resolveName_eq_lookup ht name zone port

/-- In all other cases nothing is looked up. -/
theorem neverLooksUp_of_not
    (h : ¬ ((∃ name, AsksFor n services address name) ∧ ∀ t, deadline = some t → s.now < t)) :
    NeverLooksUp s (s.resolve ⟨·, c, services⟩ deadline n address) := by
  cases hparse : Target.parse n services address with
  | error e => exact ⟨.error e, fun r => by simp only [resolve, hparse]⟩
  | ok target =>
    cases target with
    | fixed a => exact ⟨.ok ⟨n.addrKind, [a]⟩, fun r => by simp only [resolve, hparse]⟩
    | literal ip zone port =>
      exact ⟨Target.narrowed c n zone port [ip], fun r => by simp only [resolve, hparse]⟩
    | name name zone port =>
      have hasks : AsksFor n services address name := asksFor_iff.2 ⟨zone, port, hparse⟩
      obtain ⟨t, rfl, ht⟩ : ∃ t, deadline = some t ∧ t ≤ s.now := by
        simpa using fun hin => h ⟨⟨name, hasks⟩, hin⟩
      exact ⟨.error .timeout, fun r => by simp [resolve, hparse, resolveName, ht]⟩

/-- **Consultation.** A resolution looks up a name exactly if its address asks for
it and the deadline has not passed, once and with nothing else, and makes no use
of the resolver otherwise. With a server as the resolver, and nothing else going
on, the server is asked for this name, or for nothing. -/
theorem resolver_consulted (s : Session) (c : Capability) (services : Services)
    (deadline : Option Nat) (n : Network) (address : Text) :
    (∀ name : Domain,
      LooksUpOnce s deadline name (s.resolve ⟨·, c, services⟩ deadline n address) ↔
        AsksFor n services address name ∧ ∀ t, deadline = some t → s.now < t) ∧
    (NeverLooksUp s (s.resolve ⟨·, c, services⟩ deadline n address) ↔
      ¬ ((∃ name, AsksFor n services address name) ∧ ∀ t, deadline = some t → s.now < t)) ∧
    (s.tasks = [] → ∀ server, ∃ asked : Option Domain,
      (s.resolve ⟨.server server, c, services⟩ deadline n address).2.record.questions =
        s.record.questions ++ asked.toList.map (⟨server, ·, s.now⟩) ∧
      ∀ name, asked = some name ↔
        AsksFor n services address name ∧ ∀ t, deadline = some t → s.now < t) := by
  have honce : ∀ name : Domain,
      LooksUpOnce s deadline name (s.resolve ⟨·, c, services⟩ deadline n address) ↔
        AsksFor n services address name ∧ ∀ t, deadline = some t → s.now < t := by
    refine fun name => ⟨fun h => ?_, fun h => looksUpOnce_of_asksFor h.1 h.2⟩
    by_cases hasks : (∃ other, AsksFor n services address other) ∧
        ∀ t, deadline = some t → s.now < t
    · obtain ⟨⟨other, hother⟩, ht⟩ := hasks
      obtain rfl : name = other := h.unique (looksUpOnce_of_asksFor hother ht)
      exact ⟨hother, ht⟩
    · exact absurd (neverLooksUp_of_not hasks) h.not_neverLooksUp
  refine ⟨honce, ⟨?_, neverLooksUp_of_not⟩, fun hquiet server => ?_⟩
  · rintro hnever ⟨⟨name, hname⟩, ht⟩
    exact ((honce name).2 ⟨hname, ht⟩).not_neverLooksUp hnever
  by_cases hasks : (∃ name, AsksFor n services address name) ∧ ∀ t, deadline = some t → s.now < t
  · obtain ⟨⟨name, hname⟩, ht⟩ := hasks
    have hlooks : LooksUpOnce s deadline name (s.resolve ⟨·, c, services⟩ deadline n address) :=
      looksUpOnce_of_asksFor hname ht
    have ⟨_, hresult⟩ := hlooks
    have hsession : (s.resolve ⟨.server server, c, services⟩ deadline n address).2 =
        (s.lookup (.server server) deadline name).2 := congrArg Prod.snd (hresult (.server server))
    refine ⟨some name, ?_, fun other => ?_⟩
    · rw [hsession]
      exact questions_lookup_server_of_quiet hquiet server ht name
    · rw [← honce other, Option.some.injEq]
      exact ⟨fun h => h ▸ hlooks, fun h => hlooks.unique h⟩
  · have hnever : NeverLooksUp s (s.resolve ⟨·, c, services⟩ deadline n address) :=
      neverLooksUp_of_not hasks
    have ⟨_, hresult⟩ := hnever
    have hsession : (s.resolve ⟨.server server, c, services⟩ deadline n address).2 = s :=
      congrArg Prod.snd (hresult (.server server))
    refine ⟨none, ?_, fun name => ?_⟩
    · rw [hsession]
      exact (List.append_nil _).symm
    · simp only [reduceCtorEq, false_iff]
      exact fun h => hasks ⟨⟨name, h.1⟩, h.2⟩

end Session
end NetDial
