import NetDial.Text.Basic

/-!
# Host and port

An endpoint is written `host:port`, or `[host]:port` when the host has colons
of its own. Splitting looks at the brackets and colons only; neither part is
checked further. A text that is not of this form is refused with the reason and
the text itself.
-/
namespace NetDial

/-- Why a text is no address. -/
inductive AddrFault where
  | missingPort
  | missingCloseBracket
  | tooManyColons
  | unexpectedOpenBracket
  | unexpectedCloseBracket
  | invalidPort
  deriving DecidableEq, Repr

/-- The wording of a fault. -/
def AddrFault.text : AddrFault → Text
  | missingPort => "missing port in address".toList
  | missingCloseBracket => "missing ']' in address".toList
  | tooManyColons => "too many colons in address".toList
  | unexpectedOpenBracket => "unexpected '[' in address".toList
  | unexpectedCloseBracket => "unexpected ']' in address".toList
  | invalidPort => "invalid port".toList

/-- A malformed address: the reason and the text as it was given. -/
structure AddrError where
  reason : AddrFault
  addr : Text
  deriving DecidableEq, Repr

/-- The message names the address unless it is empty. -/
def AddrError.text (e : AddrError) : Text :=
  if e.addr = [] then e.reason.text
  else "address ".toList ++ e.addr ++ ": ".toList ++ e.reason.text

/-- Splits `[host]:port`, given the text behind the opening bracket and the
port behind the last colon. The first closing bracket stands right before that
colon. -/
def splitBracketed (inner port : Text) : Except AddrFault (Text × Text) :=
  match Text.splitFirst? ']' inner with
  | none => .error .missingCloseBracket
  | some (_, []) => .error .missingPort
  | some (host, c :: after) =>
    if c :: after ≠ ':' :: port then
      .error (if c = ':' then .tooManyColons else .missingPort)
    else if '[' ∈ inner then .error .unexpectedOpenBracket
    else if ']' ∈ after then .error .unexpectedCloseBracket
    else .ok (host, port)

/-- Splits `host:port`, given both sides of the last colon. -/
def splitPlain (host port : Text) : Except AddrFault (Text × Text) :=
  if ':' ∈ host then .error .tooManyColons
  else if '[' ∈ host ∨ '[' ∈ port then .error .unexpectedOpenBracket
  else if ']' ∈ host ∨ ']' ∈ port then .error .unexpectedCloseBracket
  else .ok (host, port)

/-- The host and the port of `host:port` or `[host]:port`, or what is wrong. -/
def splitHostPortFault (s : Text) : Except AddrFault (Text × Text) :=
  match Text.splitLast? ':' s, s with
  | none, _ => .error .missingPort
  | some (_, port), '[' :: inner => splitBracketed inner port
  | some (host, port), _ => splitPlain host port

/-- The host and the port of `host:port` or `[host]:port`. -/
def splitHostPort (s : Text) : Except AddrError (Text × Text) :=
  (splitHostPortFault s).mapError fun r => ⟨r, s⟩

/-- Joins host and port, with brackets around a host that has a colon or a
percent sign. -/
def joinHostPort (host port : Text) : Text :=
  if ':' ∈ host ∨ '%' ∈ host then '[' :: host ++ "]:".toList ++ port
  else host ++ ':' :: port

end NetDial
