import NetDial.Error.Chain
import NetDial.Ip.Scan

/-!
# Services and ports

A port is a decimal number or the name of a service. Numbers are read by the
scanner of the literals; names go to a service table, which may fail. Either
way the port fits in 16 bits.
-/
namespace NetDial

/-- Finds the port number of a service by its name. -/
abbrev Services := Transport → Text → Except Error Nat

namespace Services

/-- The services known on TCP. -/
def tcpNames : List (Text × Nat) :=
  [("ftp".toList, 21), ("ftps".toList, 990), ("gopher".toList, 70), ("http".toList, 80),
    ("https".toList, 443), ("imap2".toList, 143), ("imap3".toList, 220), ("imaps".toList, 993),
    ("pop3".toList, 110), ("pop3s".toList, 995), ("smtp".toList, 25), ("ssh".toList, 22),
    ("submissions".toList, 465), ("telnet".toList, 23)]

/-- The services known on UDP. -/
def udpNames : List (Text × Nat) :=
  [("domain".toList, 53)]

/-- The error for a service that a table does not have. -/
def unknown (t : Transport) (s : Text) : Error :=
  .root (.unknownService t s)

/-- The table of well-known services, whose names may be written in any case. -/
def wellKnown : Services := fun t s =>
  let names := match t with
    | .tcp => tcpNames
    | .udp => udpNames
  match names.find? fun e => Text.sameIgnoringCase e.1 s with
  | some e => .ok e.2
  | none => .error (unknown t s)

/-- A table by exact name for all transports, whose entries are ports or
failures with a message. -/
def ofTable (entries : List (Text × Except Text Nat)) : Services := fun t s =>
  match entries.lookup s with
  | some (.ok n) => .ok n
  | some (.error m) => .error (.ofText m)
  | none => .error (unknown t s)

end Services

/-- The port of a number, if it is one. -/
def portOfNat (n : Nat) (port : Text) : Except Error UInt16 :=
  if n < 65536 then .ok (UInt16.ofNat n) else .error (.root (.address ⟨.invalidPort, port⟩))

/-- The port that a text names on a transport. A run of decimal digits is a
number; anything else is looked up. -/
def parsePort (t : Transport) (port : Text) (services : Services) : Except Error UInt16 :=
  if Text.isDecimal port then
    match Ip.scanDecimal? port with
    | some (n, _) => portOfNat n.toNat port
    | none => .error (.root (.address ⟨.invalidPort, port⟩))
  else
    match services t port with
    | .ok n => portOfNat n port
    | .error e => .error e

end NetDial
