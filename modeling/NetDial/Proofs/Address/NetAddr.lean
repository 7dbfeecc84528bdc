import NetDial.Address.NetAddr
import NetDial.Proofs.Address.HostPort
import NetDial.Proofs.Ip.Scoped

/-!
# The text of endpoints

**Results.**
* `isEndpoint_endpointText`: an IP address and its port are written as an
  endpoint of that literal and that number.
-/
namespace NetDial

theorem Text.noBrackets_decimal (n : Nat) : NoBrackets (Text.decimal n) :=
  ⟨Text.not_mem_decimal n rfl, Text.not_mem_decimal n rfl⟩

namespace ScopedIp

variable {x : ScopedIp}

theorem text_ne_nil (h : x.HasLiteral) : x.text ≠ [] := by
  intro hnil
  have hread := parse?_text_of_hasLiteral h
  rw [hnil] at hread
  cases hread

theorem noBrackets_text (h : x.HasLiteral) (hzone : ∀ z, x.zone = some z → NoBrackets z) :
    NoBrackets x.text := by
  obtain ⟨ip, zone⟩ := x
  have hbare : NoBrackets ip.text := by
    cases ip with
    | v4 y => exact ⟨y.not_mem_text rfl (by decide), y.not_mem_text rfl (by decide)⟩
    | v6 y => exact ⟨y.not_mem_text (by decide), y.not_mem_text (by decide)⟩
  cases zone with
  | none => exact hbare
  | some z =>
    have hz := hzone z rfl
    constructor
    · simp [text, hbare.opening, hz.opening]
    · simp [text, hbare.closing, hz.closing]

/-- An IPv6 address stands in brackets before its port, and an IPv4 address has
no colon of its own. -/
theorem isEndpoint_endpointText (h : x.HasLiteral) (hzone : ∀ z, x.zone = some z → NoBrackets z)
    (port : UInt16) :
    IsEndpoint (NetAddr.endpointText x port) x.text (Text.decimal port.toNat) := by
  have hbare := noBrackets_text h hzone
  have hport := Text.noBrackets_decimal port.toNat
  have hlast : ':' ∉ Text.decimal port.toNat := Text.not_mem_decimal _ rfl
  obtain ⟨ip, zone⟩ := x
  cases ip with
  | v4 y =>
    cases zone with
    | some z => cases (h z rfl).1
    | none => exact .plain hbare hport (y.not_mem_text rfl (by decide)) hlast
  | v6 y =>
    have hsplit : NetAddr.endpointText ⟨.v6 y, zone⟩ port =
        '[' :: ((⟨.v6 y, zone⟩ : ScopedIp).text ++ ']' :: ':' :: Text.decimal port.toNat) := by
      simp [NetAddr.endpointText, Ip.isV6]
    rw [hsplit]
    exact .bracketed hbare hport hlast

end ScopedIp
end NetDial
