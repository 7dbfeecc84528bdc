import NetDial.Proofs.Capability

/-!
# Endpoints

An IPv4 address and its IPv4-mapped IPv6 form are two addresses of one endpoint.
Narrowing may hand out the one for the other, but it looks at the endpoint alone:
whichever of the two it is given, it hands out the same, and nothing of another
endpoint.

Each endpoint has one address that is not mapped (`Ip.unmapped`), so that two
addresses are compared by it.

**Results.**
* `sameEndpoint_iff`: addresses of one endpoint have the same unmapped address.
* `narrow?_unmapped`: narrowing looks at the endpoint.
* `sameEndpoint_of_narrow?`: narrowing stays at the endpoint.
* `StacksIn.isSome_narrow?`: with more stacks narrowing leaves no less.
* `narrow?_by_endpoint`: the laws of narrowing.
-/
namespace NetDial

/-- The addresses are the same, or one is an IPv4 address and the other its mapped
form. -/
inductive SameEndpoint : Ip → Ip → Prop where
  | same (ip : Ip) : SameEndpoint ip ip
  | mapped (x : Ipv4) : SameEndpoint (.v4 x) (.v6 x.toMapped)
  | unmapped (x : Ipv4) : SameEndpoint (.v6 x.toMapped) (.v4 x)

/-- The address of the endpoint that is not mapped. -/
def Ip.unmapped (ip : Ip) : Ip :=
  match ip.asV4? with
  | some x => .v4 x
  | none => ip

variable {ip out other : Ip}

theorem Ip.unmapped_toMapped (x : Ipv4) : (Ip.v6 x.toMapped).unmapped = .v4 x := by
  simp only [Ip.unmapped, Ip.asV4?, Ipv4.mapped?_toMapped]

/-- An address is the unmapped one, or it is the mapped form of that. -/
theorem Ip.unmapped_cases (ip : Ip) :
    ip.unmapped = ip ∨ ∃ x, ip = .v6 (Ipv4.toMapped x) ∧ ip.unmapped = .v4 x := by
  cases ip with
  | v4 x => exact .inl rfl
  | v6 x =>
    cases hx : x.mapped? with
    | none => exact .inl (by simp only [Ip.unmapped, Ip.asV4?, hx])
    | some y =>
      obtain rfl := Ipv6.toMapped_of_mapped? hx
      exact .inr ⟨y, rfl, Ip.unmapped_toMapped y⟩

theorem sameEndpoint_unmapped (ip : Ip) : SameEndpoint ip ip.unmapped := by
  rcases ip.unmapped_cases with hself | ⟨x, rfl, hx⟩
  · rw [hself]
    exact .same ip
  · rw [hx]
    exact .unmapped x

theorem sameEndpoint_of_asV4? {x : Ipv4} (h : ip.asV4? = some x) : SameEndpoint ip (.v4 x) := by
  have hx : ip.unmapped = .v4 x := by simp only [Ip.unmapped, h]
  exact hx ▸ sameEndpoint_unmapped ip

theorem sameEndpoint_iff : SameEndpoint ip other ↔ ip.unmapped = other.unmapped := by
  constructor
  · intro h
    cases h with
    | same => rfl
    | mapped x => exact (Ip.unmapped_toMapped x).symm
    | unmapped x => exact Ip.unmapped_toMapped x
  · intro h
    rcases ip.unmapped_cases with hself | ⟨x, rfl, hx⟩
    · rcases other.unmapped_cases with hself' | ⟨y, rfl, hy⟩
      · rw [hself, hself'] at h
        exact h ▸ .same ip
      · rw [hself, hy] at h
        exact h ▸ .mapped y
    · rw [hx] at h
      rcases other.unmapped_cases with hself' | ⟨y, rfl, hy⟩
      · rw [hself'] at h
        exact h ▸ .unmapped x
      · rw [hy, Ip.v4.injEq] at h
        exact h ▸ .same _

namespace Capability

variable {c d : Capability} {family : IpFamily} {zoned : Bool}

/-! ## Narrowing and endpoints -/

theorem ipv6Only?_toMapped (c : Capability) (x : Ipv4) : c.ipv6Only? (.v6 x.toMapped) = none := by
  simp [ipv6Only?, Ipv4.mapped?_toMapped]

theorem ipv4Only?_toMapped (c : Capability) (x : Ipv4) :
    c.ipv4Only? (.v6 x.toMapped) = c.ipv4Only? (.v4 x) := by
  simp only [ipv4Only?, Ip.asV4?, Ipv4.mapped?_toMapped]

theorem supportedIp?_toMapped (c : Capability) (x : Ipv4) :
    c.supportedIp? (.v6 x.toMapped) = c.supportedIp? (.v4 x) := by
  simp only [supportedIp?, Ip.asV4?, Ipv4.mapped?_toMapped]

theorem narrow?_toMapped (c : Capability) (x : Ipv4) (family : IpFamily) (zoned : Bool) :
    c.narrow? (.v6 x.toMapped) family zoned = c.narrow? (.v4 x) family zoned := by
  rcases narrow?_cases family zoned with hasks | hasks | hasks
  · rw [hasks, hasks]
    exact c.ipv6Only?_toMapped x
  · rw [hasks, hasks]
    exact c.ipv4Only?_toMapped x
  · rw [hasks, hasks]
    exact c.supportedIp?_toMapped x

/-- Narrowing looks at the endpoint. -/
theorem narrow?_unmapped (c : Capability) (ip : Ip) (family : IpFamily) (zoned : Bool) :
    c.narrow? ip.unmapped family zoned = c.narrow? ip family zoned := by
  rcases ip.unmapped_cases with hself | ⟨x, rfl, hx⟩
  · rw [hself]
  · rw [hx, narrow?_toMapped]

theorem sameEndpoint_of_supportedIp? (h : c.supportedIp? ip = some out) : SameEndpoint ip out := by
  unfold supportedIp? at h
  split at h
  · rename_i x h4 hx
    cases h
    exact sameEndpoint_of_asV4? hx
  · split at h
    · cases ip with
      | v4 x =>
        cases h
        exact .mapped x
      | v6 x =>
        cases h
        exact .same _
    · cases h

theorem sameEndpoint_of_ipv4Only? (h : c.ipv4Only? ip = some out) : SameEndpoint ip out := by
  unfold ipv4Only? at h
  split at h
  · obtain ⟨x, hx, rfl⟩ := Option.map_eq_some_iff.1 h
    exact sameEndpoint_of_asV4? hx
  · cases h

/-- Narrowing stays at the endpoint. -/
theorem sameEndpoint_of_narrow? (h : c.narrow? ip family zoned = some out) :
    SameEndpoint ip out := by
  rcases narrow?_cases family zoned with hasks | hasks | hasks
  · rw [hasks] at h
    obtain ⟨rfl, -⟩ := of_ipv6Only? h
    exact .same out
  · rw [hasks] at h
    exact sameEndpoint_of_ipv4Only? h
  · rw [hasks] at h
    exact sameEndpoint_of_supportedIp? h

/-! ## More stacks -/

/-- Every stack of `c` is one of `d`. -/
structure StacksIn (c d : Capability) : Prop where
  ipv4 : c.ipv4 = true → d.ipv4 = true
  ipv6 : c.ipv6 = true → d.ipv6 = true

theorem isSome_supportedIp?_iff :
    (c.supportedIp? ip).isSome = true ↔
      (c.ipv4 = true ∧ ip.asV4?.isSome = true) ∨ c.ipv6 = true := by
  unfold supportedIp?
  split
  · rename_i h4 hx
    simp [h4, hx]
  · rename_i hno
    have hno4 : ¬ (c.ipv4 = true ∧ ip.asV4?.isSome = true) := by
      rintro ⟨h4, hsome⟩
      obtain ⟨x, hx⟩ := Option.isSome_iff_exists.1 hsome
      exact hno x h4 hx
    split
    · rename_i h6
      cases ip with
      | v4 x => simp [h6]
      | v6 x => simp [h6]
    · rename_i h6
      simp [h6, hno4]

theorem isSome_ipv4Only?_iff :
    (c.ipv4Only? ip).isSome = true ↔ c.ipv4 = true ∧ ip.asV4?.isSome = true := by
  cases h4 : c.ipv4 with
  | false => simp [ipv4Only?, h4]
  | true => simp [ipv4Only?, h4]

theorem isSome_ipv6Only?_iff :
    (c.ipv6Only? ip).isSome = true ↔ c.ipv6 = true ∧ ip.asV4? = none := by
  cases ip with
  | v4 x => simp [ipv6Only?, Ip.asV4?]
  | v6 x => simp [ipv6Only?, Ip.asV4?]

/-- With more stacks narrowing leaves something of no fewer addresses. -/
theorem StacksIn.isSome_narrow? (hin : StacksIn c d)
    (h : (c.narrow? ip family zoned).isSome = true) :
    (d.narrow? ip family zoned).isSome = true := by
  rcases narrow?_cases family zoned with hasks | hasks | hasks
  · rw [hasks, isSome_ipv6Only?_iff] at h ⊢
    exact ⟨hin.ipv6 h.1, h.2⟩
  · rw [hasks, isSome_ipv4Only?_iff] at h ⊢
    exact ⟨hin.ipv4 h.1, h.2⟩
  · rw [hasks, isSome_supportedIp?_iff] at h ⊢
    exact h.imp (fun h4 => ⟨hin.ipv4 h4.1, h4.2⟩) hin.ipv6

/-- **Narrowing.** What narrowing leaves of an address belongs to the same endpoint
and is narrowed to itself. The other address of the endpoint is narrowed to the
same, and a host with no fewer stacks leaves something of every address of which
this one does. -/
theorem narrow?_by_endpoint (c : Capability) (ip : Ip) (family : IpFamily) (zoned : Bool) :
    (∀ out, c.narrow? ip family zoned = some out →
      SameEndpoint ip out ∧ c.narrow? out family zoned = some out) ∧
    (∀ other, SameEndpoint ip other →
      c.narrow? other family zoned = c.narrow? ip family zoned) ∧
    ∀ d, StacksIn c d → (c.narrow? ip family zoned).isSome = true →
      (d.narrow? ip family zoned).isSome = true := by
  refine ⟨fun out h => ⟨sameEndpoint_of_narrow? h, narrow?_of_narrow? h⟩, fun other hsame => ?_,
    fun d hin => hin.isSome_narrow?⟩
  rw [← narrow?_unmapped c other, ← sameEndpoint_iff.1 hsame, narrow?_unmapped]

/-- On a host with IPv6 alone an IPv4 address becomes its mapped form, which stays as
it is; a host with both stacks makes an IPv4 address of the mapped form. -/
theorem narrow?_by_endpoint_rewritten :
    let v6Only : Capability := ⟨false, true, false⟩
    let x : Ipv4 := ⟨192, 0, 2, 1⟩
    (v6Only.narrow? (.v4 x) .any false = some (.v6 x.toMapped) ∧
      v6Only.narrow? (.v6 x.toMapped) .any false = some (.v6 x.toMapped)) ∧
    (SameEndpoint (.v4 x) (.v6 x.toMapped) ∧
      dualStack.narrow? (.v6 x.toMapped) .any false = dualStack.narrow? (.v4 x) .any false) ∧
    (StacksIn v6Only dualStack ∧ (v6Only.narrow? (.v4 x) .any false).isSome = true ∧
      (dualStack.narrow? (.v4 x) .any false).isSome = true) := by
  intro v6Only x
  have hmapped : v6Only.narrow? (.v4 x) .any false = some (.v6 x.toMapped) := rfl
  have hsame : SameEndpoint (.v4 x) (.v6 x.toMapped) := .mapped x
  have hin : StacksIn v6Only dualStack := ⟨fun _ => rfl, fun _ => rfl⟩
  have hsome : (v6Only.narrow? (.v4 x) .any false).isSome = true := rfl
  exact ⟨⟨hmapped, ((narrow?_by_endpoint _ _ _ _).1 _ hmapped).2⟩,
    ⟨hsame, (narrow?_by_endpoint _ _ _ _).2.1 _ hsame⟩,
    hin, hsome, (narrow?_by_endpoint _ _ _ _).2.2 _ hin hsome⟩

end Capability
end NetDial
