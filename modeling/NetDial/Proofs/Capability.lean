import NetDial.Capability

/-!
# Narrowing

**Results.**
* `of_ipv4Only?`, `of_ipv6Only?`: what is left where one family is asked for.
* `narrow?_cases`: what a family and a zone ask for.
* `narrow?_of_narrow?`: what narrowing leaves, it leaves as it is.
* `isV6_of_narrow?_zoned`: what narrowing leaves of an address with a zone is
  IPv6.
* `unusable_narrow?_iff`: what narrowing leaves, the host can use, but for the
  mapped form of an address on a host that has only IPv6 and does not map.
-/
namespace NetDial.Capability

variable {c : Capability} {ip out : Ip} {family : IpFamily}

theorem supportedIp?_of_supportedIp? (h : c.supportedIp? ip = some out) :
    c.supportedIp? out = some out := by
  unfold supportedIp? at h
  split at h
  · rename_i x h4 hx
    cases h
    simp [supportedIp?, h4, Ip.asV4?]
  · rename_i hno
    split at h
    · rename_i h6
      cases ip with
      | v4 x =>
        cases h
        have h4 : c.ipv4 = false := by
          cases h4 : c.ipv4 with
          | false => rfl
          | true => exact (hno x h4 rfl).elim
        simp [supportedIp?, h4, h6]
      | v6 x =>
        cases h
        simp only [supportedIp?, h6, if_true]
    · cases h

theorem ipv4Only?_of_ipv4Only? (h : c.ipv4Only? ip = some out) : c.ipv4Only? out = some out := by
  unfold ipv4Only? at h ⊢
  split at h
  · rename_i h4
    obtain ⟨x, -, rfl⟩ := Option.map_eq_some_iff.1 h
    simp [h4, Ip.asV4?]
  · cases h

/-- Only IPv4 is left, and only on a host that has it. -/
theorem of_ipv4Only? (h : c.ipv4Only? ip = some out) : c.ipv4 = true ∧ ∃ x, out = .v4 x := by
  unfold ipv4Only? at h
  split at h
  · rename_i h4
    obtain ⟨x, -, rfl⟩ := Option.map_eq_some_iff.1 h
    exact ⟨h4, x, rfl⟩
  · cases h

/-- Only IPv6 is left, and only on a host that has it; nothing is rewritten. -/
theorem of_ipv6Only? (h : c.ipv6Only? ip = some out) :
    out = ip ∧ c.ipv6 = true ∧ ∃ x, out = .v6 x ∧ x.mapped? = none := by
  cases ip with
  | v4 x => cases h
  | v6 x =>
    simp only [ipv6Only?, Option.ite_none_right_eq_some, Option.some.injEq, Bool.and_eq_true,
      Option.isNone_iff_eq_none] at h
    obtain ⟨⟨h6, hmapped⟩, rfl⟩ := h
    exact ⟨rfl, h6, x, rfl, hmapped⟩

/-- A network pinned to IPv6 and a zone ask for the same. -/
theorem narrow?_eq_ipv6Only? {zoned : Bool} (c : Capability) (ip : Ip)
    (h : family = .v6 ∨ zoned = true) : c.narrow? ip family zoned = c.ipv6Only? ip := by
  cases family with
  | v6 => rfl
  | any | v4 =>
    obtain rfl : zoned = true := h.resolve_left (by decide)
    rfl

/-- Family and zone ask for one of three things, whatever the host and the
address. -/
theorem narrow?_cases (family : IpFamily) (zoned : Bool) :
    (∀ c ip, narrow? c ip family zoned = c.ipv6Only? ip) ∨
      (∀ c ip, narrow? c ip family zoned = c.ipv4Only? ip) ∨
      ∀ c ip, narrow? c ip family zoned = c.supportedIp? ip := by
  cases family with
  | v6 => exact .inl fun c ip => rfl
  | v4 => cases zoned with
    | true => exact .inl fun c ip => rfl
    | false => exact .inr (.inl fun c ip => rfl)
  | any => cases zoned with
    | true => exact .inl fun c ip => rfl
    | false => exact .inr (.inr fun c ip => rfl)

/-- **Narrowing twice.** What narrowing leaves of an address is narrowed to
itself. -/
theorem narrow?_of_narrow? {zoned : Bool} (h : c.narrow? ip family zoned = some out) :
    c.narrow? out family zoned = some out := by
  rcases narrow?_cases family zoned with hasks | hasks | hasks
  · rw [hasks] at h ⊢
    obtain ⟨rfl, -⟩ := of_ipv6Only? h
    exact h
  · rw [hasks] at h ⊢
    exact ipv4Only?_of_ipv4Only? h
  · rw [hasks] at h ⊢
    exact supportedIp?_of_supportedIp? h

theorem isV6_of_narrow?_zoned (h : c.narrow? ip family true = some out) : out.isV6 = true := by
  rw [narrow?_eq_ipv6Only? c ip (.inr rfl)] at h
  obtain ⟨-, -, x, rfl, -⟩ := of_ipv6Only? h
  rfl

/-! ## What the host can use -/

/-- The host can reach the address: over the stack of its family, or for a mapped
address over IPv6 sockets that serve those. -/
def Usable (c : Capability) : Ip → Prop
  | .v4 _ => c.ipv4 = true
  | .v6 x => if x.mapped?.isSome then c.ipv4Mapped = true else c.ipv6 = true

theorem usable_of_ipv4Only? (h : c.ipv4Only? ip = some out) : c.Usable out := by
  obtain ⟨h4, x, rfl⟩ := of_ipv4Only? h
  exact h4

theorem usable_of_ipv6Only? (h : c.ipv6Only? ip = some out) : c.Usable out := by
  obtain ⟨-, h6, x, rfl, hmapped⟩ := of_ipv6Only? h
  simpa [Usable, hmapped] using h6

/-- Where nothing is pinned, an address that is or maps an IPv4 address gets its
mapped form on a host with IPv6 alone, also if that host does not map. -/
theorem unusable_supportedIp?_iff :
    (∃ out, c.supportedIp? ip = some out ∧ ¬ c.Usable out) ↔
      c = ⟨false, true, false⟩ ∧ ip.asV4?.isSome := by
  obtain ⟨ipv4, ipv6, ipv4Mapped⟩ := c
  cases ip with
  | v4 x =>
    cases ipv4 <;> cases ipv6 <;> cases ipv4Mapped <;>
      simp [supportedIp?, Usable, Ip.asV4?, Ipv4.mapped?_toMapped]
  | v6 x =>
    cases hx : x.mapped? <;> cases ipv4 <;> cases ipv6 <;> cases ipv4Mapped <;>
      simp [supportedIp?, Usable, Ip.asV4?, hx]

/-- **Use of what is left.** The host can use every address that narrowing leaves,
with one exception: without IPv4 and without mapping, an address that is or maps
an IPv4 address is left as a mapped one when no family is pinned. -/
theorem unusable_narrow?_iff (c : Capability) (ip : Ip) (family : IpFamily) (zoned : Bool) :
    (∃ out, c.narrow? ip family zoned = some out ∧ ¬ c.Usable out) ↔
      c = ⟨false, true, false⟩ ∧ ip.asV4?.isSome ∧ family = .any ∧ zoned = false := by
  have hv6 : ¬ ∃ out, c.ipv6Only? ip = some out ∧ ¬ c.Usable out :=
    fun ⟨_, h, hno⟩ => hno (usable_of_ipv6Only? h)
  cases family with
  | v6 => simpa [narrow?] using hv6
  | v4 => cases zoned with
    | true => simpa [narrow?] using hv6
    | false =>
      have hv4 : ¬ ∃ out, c.ipv4Only? ip = some out ∧ ¬ c.Usable out :=
        fun ⟨_, h, hno⟩ => hno (usable_of_ipv4Only? h)
      simpa [narrow?] using hv4
  | any => cases zoned with
    | true => simpa [narrow?] using hv6
    | false => simpa [narrow?] using unusable_supportedIp?_iff

/-- The exception: `192.0.2.1` on a host that has IPv6 and does not map. -/
theorem narrow?_unusable_unmapped :
    (⟨false, true, false⟩ : Capability).narrow? (.v4 ⟨192, 0, 2, 1⟩) .any false =
        some (.v6 (Ipv4.toMapped ⟨192, 0, 2, 1⟩)) ∧
      ¬ (⟨false, true, false⟩ : Capability).Usable (.v6 (Ipv4.toMapped ⟨192, 0, 2, 1⟩)) := by
  refine ⟨rfl, ?_⟩
  simp [Usable, Ipv4.mapped?_toMapped]

end NetDial.Capability
