import NetDial.Proofs.Dial.Found
import NetDial.Proofs.Dial.Reports
import NetDial.Proofs.Filter.Survival

/-!
# Policies that do not starve a dial

A resolution on an IP network that does not fail comes to at least one address, and
all of them have IP addresses (`hasOnlyIps_of_resolve`). So a dial whose policy leaves
something of every such list has something to try: it may fail by its attempts, but
not because no address is left.

**Results.**
* `hasOnlyIps_of_resolve`: what a resolution on an IP network comes to.
* `candidates_ne_nil`, `kind_of_tries`: what a dial does with that.
* `policy_spares`: which policies starve no dial, and which change no short list.
-/
namespace NetDial

/-- There are addresses, and all of them have an IP address. -/
structure AddrList.HasOnlyIps (l : AddrList) : Prop where
  nonempty : l.ips ≠ []
  ips : ∀ c ∈ l.ips, c ≠ none

/-! ## Resolutions on IP networks -/

namespace Target

variable {n : Network} {services : Services} {address : Text}

theorem hasOnlyIps_of_narrowed {c : Capability} {zone : Option Text} {port : UInt16}
    {ips : List Ip} {l : AddrList} (h : narrowed c n zone port ips = .ok l) : l.HasOnlyIps := by
  constructor
  · unfold narrowed at h
    simp only at h
    split at h
    · cases h
    · rename_i hne
      cases h
      simpa [AddrList.ips] using hne
  · intro c hc
    obtain ⟨a, ha, rfl⟩ := List.mem_map.1 hc
    obtain ⟨ip, -, out, -, hmake⟩ := mem_of_narrowed h ha
    rw [NetAddr.ip?, (withIp?_parts hmake).2.2]
    exact Option.some_ne_none _

theorem hasOnlyIps_unspecified (n : Network) (port : UInt16) :
    AddrList.HasOnlyIps ⟨n.addrKind, [unspecified n port]⟩ := by
  constructor
  · exact List.cons_ne_nil _ _
  · intro c hc
    rw [AddrList.ips, List.map_singleton, List.mem_singleton] at hc
    rw [hc]
    cases n <;> exact Option.some_ne_none _

/-- On an IP network only an absent host stands for one address. -/
theorem unspecified_of_parse {a : NetAddr} (hkind : n.addrKind ≠ .localPath)
    (h : parse n services address = .ok (.fixed a)) : ∃ port, a = unspecified n port := by
  unfold parse at h
  rw [if_neg hkind] at h
  split at h
  · cases h
  · split at h
    · cases h
    · rename_i host port hread
      split at h
      · cases h
        exact ⟨port, rfl⟩
      · have hcases := ofHost_cases host port
        rw [h] at hcases
        cases hcases

end Target

namespace Session

variable {s t : Session} {d : Dialer} {network address : Text} {n : Network}
  {found : AddrList} {candidates : List NetAddr}

theorem hasOnlyIps_of_resolve {dir : Directory} {deadline : Option Nat} {l : AddrList}
    (hkind : n.addrKind ≠ .localPath)
    (h : (s.resolve dir deadline n address).1 = some (.ok l)) : l.HasOnlyIps := by
  unfold resolve at h
  split at h
  · cases h
  · rename_i a htarget
    obtain ⟨port, rfl⟩ := Target.unspecified_of_parse hkind htarget
    cases h
    exact Target.hasOnlyIps_unspecified n port
  · exact Target.hasOnlyIps_of_narrowed (Option.some.inj h)
  · obtain ⟨u, ips, -, -, hl⟩ := resolveName_ok h
    exact Target.hasOnlyIps_of_narrowed hl

/-! ## Dials -/

theorem candidates_ne_nil (hfilter : d.filter.KeepsSome) (h : found.HasOnlyIps) (n : Network) :
    d.candidates n found ≠ [] := by
  intro hnil
  have hnone := Dialer.candidates_eq_nil_iff.1 hnil
  obtain ⟨i, hi, hlt⟩ := hfilter found.ips h.nonempty h.ips
  have hle := hnone i hi
  rw [AddrList.ips, List.length_map] at hlt
  omega

/-- A dial that comes to try candidates does not fail for want of an address. -/
theorem kind_of_tries {e : DialError} (h : s.Tries d network address n t candidates)
    (he : (s.dial d network address).1 = some (.error e)) : e.kind ≠ .noSuitableAddress := by
  rw [dial_of_tries h] at he
  obtain ⟨a, -, cause, rfl⟩ := connect_error h.nonempty he
  unfold DialError.ofConnect
  cases cause.isTimeout <;> simp

/-- A dial on an IP network that finds addresses does not fail for want of one, if
its filter leaves something of every list of addresses. -/
theorem kind_of_keepsSome {e : DialError} (hfilter : d.filter.KeepsSome)
    (hn : Network.parse network = .ok n) (hkind : n.addrKind ≠ .localPath)
    (hfound : (s.resolveDial d network address).1 = some (.ok found))
    (he : (s.dial d network address).1 = some (.error e)) : e.kind ≠ .noSuitableAddress := by
  by_cases hexpired : Refusal.Applies s d network address .expired
  · rw [dial_of_expired hexpired] at he
    cases he
    intro h
    cases h
  · have hfinds : s.Finds d network address n found :=
      ⟨in_time_of_not_expired hexpired, hn, hfound⟩
    have hips := hasOnlyIps_of_resolve hkind ((resolveDial_eq_ok_iff hn).1 hfound)
    obtain ⟨t, htries⟩ := hfinds.tries (candidates_ne_nil hfilter hips n)
    exact kind_of_tries htries he

/-- **No starvation.** A policy whose leaves leave something of every list of
addresses does so itself: on an IP network a dial by it that finds addresses tries
some of them and does not fail for want of one. And a policy without the picks of a
whole family and without `max 0` leaves every list of at most one candidate as it
is, even if the candidate is no address. -/
theorem policy_spares (p : Policy) (arrange : List Nat → Arrangement) :
    ((∀ q ∈ p.leaves, q.KeepsSome) →
      (∀ (place : List Nat) (cs : Candidates), cs ≠ [] → (∀ c ∈ cs, c ≠ none) →
        (p.filterAt arrange place).select cs ≠ []) ∧
      ∀ (s : Session) (d : Dialer) (network address : Text) (n : Network) (found : AddrList),
        d.filter = p.filter arrange → Network.parse network = .ok n →
        n.addrKind ≠ .localPath → (s.resolveDial d network address).1 = some (.ok found) →
        d.candidates n found ≠ [] ∧
          ∀ e, (s.dial d network address).1 = some (.error e) → e.kind ≠ .noSuitableAddress) ∧
    ((∀ q ∈ p.leaves, q ≠ .allV4 ∧ q ≠ .allV6 ∧ q ≠ .max 0) →
      ∀ (place : List Nat) (cs : Candidates), cs.length ≤ 1 →
        (p.filterAt arrange place).select cs = Filter.allIndices cs) := by
  refine ⟨fun hleaves => ⟨?left, ?dial⟩, fun hleaves place cs hcs => ?short⟩
  case left =>
    intro place cs hne hips
    have hkeeps : (p.filterAt arrange place).KeepsSome := Policy.keepsSome_of_leaves hleaves
    obtain ⟨i, hi, -⟩ := hkeeps cs hne hips
    exact List.ne_nil_of_mem hi
  case dial =>
    intro s d network address n found hfilter hn hkind hfound
    have hkeeps : d.filter.KeepsSome := hfilter ▸ Policy.keepsSome_of_leaves hleaves
    have hips := hasOnlyIps_of_resolve hkind ((resolveDial_eq_ok_iff hn).1 hfound)
    exact ⟨candidates_ne_nil hkeeps hips n, fun e => kind_of_keepsSome hkeeps hn hkind hfound⟩
  case short => exact Policy.sparesSingle_of_leaves hleaves cs hcs

end Session

/-- The last of the shuffled mirrors is left, and a lone candidate without IP
address too. -/
theorem policy_spares_nested :
    let p : Policy := .compose [.shuffle, .compose [.reverse, .max 1]]
    let arrange := fun _ => Arrangement.asIs
    let d := { mirrorDialer [] with filter := p.filter arrange }
    let found : AddrList := ⟨.stream, [mirrorAddr 1, mirrorAddr 2, mirrorAddr 3]⟩
    (Session.nobodyKnown.resolveDial d "tcp".toList "mirror:80".toList).1 = some (.ok found) ∧
      d.candidates (.tcp .any) found ≠ [] ∧ (p.filterAt arrange []).select [none] = [0] := by
  intro p arrange d found
  have hleaves : p.leaves = [.shuffle, .reverse, .max 1] := rfl
  have hfound : (Session.nobodyKnown.resolveDial d "tcp".toList "mirror:80".toList).1 =
      some (.ok found) := by rfl
  obtain ⟨hsome, hsingle⟩ := Session.policy_spares p arrange
  refine ⟨hfound, ?_, hsingle ?_ [] [none] (Nat.le_refl 1)⟩
  · have hkeeps : ∀ q ∈ p.leaves, q.KeepsSome := by
      rw [hleaves]
      simp only [List.forall_mem_cons]
      exact ⟨.shuffle, .reverse, .max 1 (Nat.le_refl 1), by simp⟩
    exact ((hsome hkeeps).2 _ d _ _ _ found rfl rfl (by decide) hfound).1
  · rw [hleaves]
    simp

end NetDial
