import NetDial.Error.Chain
import NetDial.Time

/-!
# Connection attempts

An attempt connects to one address with the options of the dialer. It starts,
and at some later instant it has a connection or an error. What came of it is
reported as an event to the resolver that found the address. A connection is
known by the address it is to.
-/
namespace NetDial

/-- What an attempt has to keep to. -/
structure ConnectOptions where
  deadline : Option Nat
  localAddr : Option NetAddr
  keepAlive : Option Nat
  deriving DecidableEq, Repr

/-- The end of an attempt as it is reported. -/
structure DialEvent where
  network : Network
  addr : NetAddr
  elapsed : Nat
  error : Option Error
  deriving DecidableEq, Repr

/-- An attempt that ends. -/
structure Attempt where
  network : Network
  addr : NetAddr
  start : Nat
  finish : Nat
  error : Option Error
  deriving DecidableEq, Repr

namespace Attempt

/-- The attempt got a connection. -/
def succeeds (a : Attempt) : Bool :=
  a.error.isNone

/-- The event that reports the attempt. -/
def event (a : Attempt) : DialEvent :=
  ⟨a.network, a.addr, a.finish - a.start, a.error⟩

end Attempt
end NetDial
