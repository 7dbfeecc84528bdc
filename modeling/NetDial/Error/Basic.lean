import NetDial.Network
import NetDial.Text.Quoted

/-!
# Errors

An error is a root cause under any number of layers. A layer adds a context to
the message, or erases the type of what it holds and shows as that. Every layer
has a kind, under which it can be found again, a message and a description.
-/
namespace NetDial

/-- The kinds of input/output errors. Those that nothing here tells apart go by
their names. -/
inductive IoKind where
  | timedOut
  | refused
  | unreachable
  | wouldBlock
  | other (name : Text)
  deriving DecidableEq, Repr

/-- The name of an input/output error's kind. -/
def IoKind.name : IoKind → Text
  | timedOut => "TimedOut".toList
  | refused => "ConnectionRefused".toList
  | unreachable => "HostUnreachable".toList
  | wouldBlock => "WouldBlock".toList
  | other name => name

/-- An error that has no cause of its own. One of a type from outside goes by the
name of its type, and brings its message and its description. -/
inductive Cause where
  | address (error : AddrError)
  | unknownService (transport : Transport) (service : Text)
  | kindMismatch (error : KindMismatch)
  | unknownNetwork (error : UnknownNetwork)
  | unsupportedNetwork (network : Network)
  | lookupDenied
  | hostNotMapped
  | timeout
  | noSuitableAddress
  | missingAddress
  | invalidDomain
  | missingProtocol
  | connectDenied
  | io (kind : IoKind) (message : Text)
  | message (text : Text)
  | foreign (type message description : Text)
  deriving DecidableEq, Repr

/-- A root cause under layers. -/
inductive Error where
  | root (cause : Cause)
  | context (note : Text) (inner : Error)
  | erased (inner : Error)
  deriving DecidableEq, Repr

/-- The kinds of errors that can be told apart from outside; texts and contexts
count as `other`. -/
inductive ErrorKind where
  | address
  | unknownService
  | kindMismatch
  | unknownNetwork
  | unsupportedNetwork
  | lookupDenied
  | hostNotMapped
  | timeout
  | noSuitableAddress
  | missingAddress
  | invalidDomain
  | missingProtocol
  | connectDenied
  | dial
  | resolve
  | erased
  | io
  | foreign (type : Text)
  | other
  deriving DecidableEq, Repr

/-- The public name of a kind. -/
def ErrorKind.name : ErrorKind → Text
  | address => "AddrError".toList
  | unknownService => "UnknownServiceError".toList
  | kindMismatch => "AddrKindMismatch".toList
  | unknownNetwork => "UnknownNetworkError".toList
  | unsupportedNetwork => "UnsupportedNetworkError".toList
  | lookupDenied => "DnsDeniedError".toList
  | hostNotMapped => "DomainNotMappedError".toList
  | timeout => "TimeoutError".toList
  | noSuitableAddress => "NoSuitableAddressError".toList
  | missingAddress => "MissingAddressError".toList
  | invalidDomain => "InvalidDomainError".toList
  | missingProtocol => "MissingProtocolError".toList
  | connectDenied => "ConnectDeniedError".toList
  | dial => "DialError".toList
  | resolve => "ResolveError".toList
  | erased => "OpaqueError".toList
  | io => "io".toList
  | foreign _ => "other".toList
  | other => "other".toList

namespace Cause

/-- The kind of a root cause. -/
def kind : Cause → ErrorKind
  | address _ => .address
  | unknownService .. => .unknownService
  | kindMismatch _ => .kindMismatch
  | unknownNetwork _ => .unknownNetwork
  | unsupportedNetwork _ => .unsupportedNetwork
  | lookupDenied => .lookupDenied
  | hostNotMapped => .hostNotMapped
  | timeout => .timeout
  | noSuitableAddress => .noSuitableAddress
  | missingAddress => .missingAddress
  | invalidDomain => .invalidDomain
  | missingProtocol => .missingProtocol
  | connectDenied => .connectDenied
  | io .. => .io
  | message _ => .other
  | foreign type _ _ => .foreign type

/-- The message of a root cause. -/
def text : Cause → Text
  | address e => e.text
  | unknownService t s => "unknown port ".toList ++ t.text ++ '/' :: s
  | kindMismatch e => e.text
  | unknownNetwork e => e.text
  | unsupportedNetwork n => "unsupported network ".toList ++ n.text
  | lookupDenied => "dns resolve denied".toList
  | hostNotMapped => "domain not mapped in memory".toList
  | timeout => "i/o timeout".toList
  | noSuitableAddress => "no suitable address found".toList
  | missingAddress => "missing address".toList
  | invalidDomain => "invalid domain name".toList
  | missingProtocol => "missing ip protocol".toList
  | connectDenied => "connect denied".toList
  | io _ s => s
  | message s => s
  | foreign _ s _ => s

/-- The description of a root cause: a text is quoted, an input/output error
shows its kind, an error from outside brings its own, and any other cause shows
its name. -/
def describe : Cause → Text
  | message s => Text.quoted s
  | io k s =>
    Text.describeRecord "Custom".toList [("kind".toList, k.name), ("error".toList, Text.quoted s)]
  | foreign _ _ d => d
  | c => c.kind.name

/-- The cause is a timeout: the library's own or one of input/output. -/
def isTimeout : Cause → Bool
  | timeout => true
  | io .timedOut _ => true
  | _ => false

end Cause

namespace Error

/-- An error made of a text. -/
def ofText (s : Text) : Error :=
  root (.message s)

/-- The error of a value that was required and is missing. -/
def missing : Error :=
  ofText "Option is None".toList

/-- The kind of the outermost layer. -/
def kind : Error → ErrorKind
  | root c => c.kind
  | context .. => .other
  | erased _ => .erased

/-- The message: the contexts from outside in, each before a colon, and then
the root cause. -/
def text : Error → Text
  | root c => c.text
  | context note e => note ++ ": ".toList ++ text e
  | erased e => text e

/-- The description, which shows the contexts as records. -/
def describe : Error → Text
  | root c => c.describe
  | context note e =>
    Text.describeRecord "ContextError".toList
      [("context".toList, note), ("error".toList, describe e)]
  | erased e => describe e

end Error
end NetDial
