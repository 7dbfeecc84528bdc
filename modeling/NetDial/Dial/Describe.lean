import NetDial.Dial.Dialer

/-!
# Descriptions of dialers

The description of a dialer shows its settings as a record, up to its filter and
services, which have none.
-/
namespace NetDial

/-- The description of a truth value. -/
def describeBool (b : Bool) : Text :=
  if b then "true".toList else "false".toList

/-- The description of IP stacks. -/
def Capability.describe (c : Capability) : Text :=
  Text.describeRecord "IpStackCapability".toList
    [("ipv4".toList, describeBool c.ipv4), ("ipv6".toList, describeBool c.ipv6),
      ("ipv4_mapped".toList, describeBool c.ipv4Mapped)]

/-- The description of a scoped address. -/
def ScopedIp.describe (x : ScopedIp) : Text :=
  Text.describeRecord "ScopedIp".toList
    [("ip".toList, x.ip.text), ("zone".toList, Text.describeOption (x.zone.map Text.quoted))]

/-- The description of an address. -/
def NetAddr.describe : NetAddr → Text
  | stream ip port =>
    Text.describeRecord "Stream".toList
      [("ip".toList, ip.describe), ("port".toList, Text.decimal port.toNat)]
  | datagram ip port =>
    Text.describeRecord "Datagram".toList
      [("ip".toList, ip.describe), ("port".toList, Text.decimal port.toNat)]
  | rawIp ip => Text.describeRecord "RawIp".toList [("ip".toList, ip.describe)]
  | localPath path => Text.describeRecord "Local".toList [("path".toList, Text.quoted path)]

/-- The description of an optional duration. -/
def describeDuration (d : Option Nat) : Text :=
  Text.describeOption (d.map Duration.text)

/-- The description of a dialer whose caches hold `entries`. -/
def Dialer.describe (entries : Nat → Nat) (d : Dialer) : Text :=
  Text.describeOpenRecord "Dialer".toList
    [("resolver".toList, d.resolver.describe entries), ("connector".toList, d.connector.name),
      ("capability".toList, d.capability.describe), ("timeout".toList, describeDuration d.timeout),
      ("deadline".toList, describeDuration d.deadline),
      ("local_addr".toList, Text.describeOption (d.localAddr.map NetAddr.describe)),
      ("keep_alive".toList, describeDuration d.keepAlive)]

end NetDial
