import NetDial.Error.Chain

/-!
# Errors of a dial

A dial or a resolution that fails says what went wrong by kind and carries the
error that is the reason. A dial also names the network, and the address of the
attempt that failed if one was made. Callers decide by the kind whether to try
again: only timeouts are temporary.

**Results.**
* `ofResolve_kind`: a dial keeps the kind of a failed resolution.
* `ofConnect_kind`: a failed attempt is a timeout exactly if its error has one
  among its layers.
-/
namespace NetDial

/-- What went wrong. -/
inductive DialErrorKind where
  | malformedInput
  | resolution
  | noSuitableAddress
  | timeout
  | connect
  deriving DecidableEq, Repr

/-- The wording of a kind. -/
def DialErrorKind.text : DialErrorKind → Text
  | malformedInput => "malformed input".toList
  | resolution => "resolution failure".toList
  | noSuitableAddress => "no suitable address".toList
  | timeout => "timeout".toList
  | connect => "connect failure".toList

/-- A layer of an error as a caller sees it: its kind and its message. -/
structure ErrorLink where
  kind : ErrorKind
  text : Text
  deriving DecidableEq, Repr

/-- The layers of an error from outside in. -/
def Error.links (e : Error) : List ErrorLink :=
  e.layers.map fun l => ⟨l.kind, l.text⟩

/-- A resolution that failed. -/
structure ResolveError where
  kind : DialErrorKind
  source : Error
  deriving DecidableEq, Repr

namespace ResolveError

/-- The network or the address is not well formed. -/
def malformed (e : Error) : ResolveError :=
  ⟨.malformedInput, e⟩

/-- The host was not found. -/
def resolution (e : Error) : ResolveError :=
  ⟨.resolution, e⟩

/-- The deadline passed before the host was found. -/
def timeout : ResolveError :=
  ⟨.timeout, .root .timeout⟩

/-- No address is left to try. -/
def noSuitableAddress : ResolveError :=
  ⟨.noSuitableAddress, .root .noSuitableAddress⟩

/-- The deadline passed. -/
def isTimeout (e : ResolveError) : Bool :=
  e.kind == .timeout

/-- The message is that of the reason. -/
def text (e : ResolveError) : Text :=
  e.source.text

/-- The error and the layers of its reason. -/
def links (e : ResolveError) : List ErrorLink :=
  ⟨.resolve, e.text⟩ :: e.source.links

end ResolveError

/-- A dial that failed. -/
structure DialError where
  kind : DialErrorKind
  network : Text
  addr : Option Text
  source : Error
  deriving DecidableEq, Repr

namespace DialError

/-- A dial of a network that is not known. -/
def malformed (network : Text) (e : Error) : DialError :=
  ⟨.malformedInput, network, none, e⟩

/-- A dial that had no time left when it started. -/
def expired (network : Text) : DialError :=
  ⟨.timeout, network, none, .root .timeout⟩

/-- A dial whose resolution failed. -/
def ofResolve (network : Text) (e : ResolveError) : DialError :=
  ⟨e.kind, network, none, e.source⟩

/-- A dial whose attempt failed. -/
def ofConnect (network addr : Text) (e : Error) : DialError :=
  ⟨if e.isTimeout then .timeout else .connect, network, some addr, e⟩

/-- The operation that failed. -/
def op : Text :=
  "dial".toList

/-- The deadline passed. -/
def isTimeout (e : DialError) : Bool :=
  e.kind == .timeout

/-- Another dial may succeed. -/
def isTemporary (e : DialError) : Bool :=
  e.isTimeout

/-- The message names the operation, the network and the address if there is
one, before the reason. -/
def text (e : DialError) : Text :=
  op ++ ' ' :: e.network ++ (e.addr.elim [] fun a => ' ' :: a) ++ ": ".toList ++ e.source.text

/-- The error and the layers of its reason. -/
def links (e : DialError) : List ErrorLink :=
  ⟨.dial, e.text⟩ :: e.source.links

theorem ofResolve_kind (network : Text) (e : ResolveError) :
    (ofResolve network e).kind = e.kind :=
  rfl

theorem ofConnect_kind (network addr : Text) (e : Error) :
    (ofConnect network addr e).kind = .timeout ↔ e.isTimeout = true := by
  unfold ofConnect
  cases e.isTimeout <;> simp

end DialError
end NetDial
