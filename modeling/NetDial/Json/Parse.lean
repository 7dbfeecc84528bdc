import NetDial.Json.Basic

/-!
# Reading JSON

The strict grammar: blanks between the parts, no comma before a closing
bracket, no leading zero, no control character in a string, and nothing but
blanks behind the value. Nesting is bounded by the length of the text, which
is the fuel of the reader.
-/
namespace NetDial.Json

/-- A blank between the parts of a value. -/
def isBlank (c : Char) : Bool :=
  c == ' ' || c == '\t' || c == '\n' || c == '\r'

/-- The text behind its leading blanks. -/
def skipBlanks (s : Text) : Text :=
  s.dropWhile isBlank

/-! ## Strings -/

/-- The value of four hexadecimal digits. -/
def hex4? (a b c d : Char) : Option Nat := do
  let a ← Text.hexValue? a
  let b ← Text.hexValue? b
  let c ← Text.hexValue? c
  let d ← Text.hexValue? d
  return ((a * 16 + b) * 16 + c) * 16 + d

/-- The character that a backslash and one character stand for. -/
def simpleEscape? : Char → Option Char
  | '"' => some '"'
  | '\\' => some '\\'
  | '/' => some '/'
  | 'b' => some '\x08'
  | 'f' => some '\x0c'
  | 'n' => some '\n'
  | 'r' => some '\r'
  | 't' => some '\t'
  | _ => none

/-- The code units of a string behind its opening quote, and the text behind
its closing quote. -/
def stringUnits : Text → Option (List Nat × Text)
  | [] => none
  | '"' :: s => some ([], s)
  | '\\' :: 'u' :: a :: b :: c :: d :: s => do
    let u ← hex4? a b c d
    let (us, rest) ← stringUnits s
    return (u :: us, rest)
  | '\\' :: c :: s => do
    let c ← simpleEscape? c
    let (us, rest) ← stringUnits s
    return (c.toNat :: us, rest)
  | c :: s =>
    if c == '\\' || c.toNat < 32 then none
    else do
      let (us, rest) ← stringUnits s
      return (c.toNat :: us, rest)

/-- The unit opens a surrogate pair. -/
def isHighSurrogate (u : Nat) : Bool :=
  0xd800 ≤ u && u < 0xdc00

/-- The unit closes a surrogate pair. -/
def isLowSurrogate (u : Nat) : Bool :=
  0xdc00 ≤ u && u < 0xe000

/-- The text of the units, surrogates being there in pairs only. -/
def unitsText? : List Nat → Option Text
  | [] => some []
  | u :: us =>
    if isHighSurrogate u then
      match us with
      | [] => none
      | v :: vs =>
        if isLowSurrogate v then
          (unitsText? vs).map (Char.ofNat (0x10000 + (u - 0xd800) * 1024 + (v - 0xdc00)) :: ·)
        else none
    else if isLowSurrogate u then none
    else (unitsText? us).map (Char.ofNat u :: ·)

/-- A string behind its opening quote. -/
def parseString (s : Text) : Option (Option Text × Text) :=
  (stringUnits s).map fun p => (unitsText? p.1, p.2)

/-! ## Numbers -/

/-- A non-empty run of digits and the text behind it. -/
def digitRun? (s : Text) : Option (Text × Text) :=
  match s.takeWhile Char.isDigit with
  | [] => none
  | ds => some (ds, s.dropWhile Char.isDigit)

/-- The digits before the point: a single zero, or a run without leading
zero. -/
def wholePart? : Text → Option (Text × Text)
  | '0' :: s => some (['0'], s)
  | s => digitRun? s

/-- The digits behind the point, if there is one. -/
def fractionPart? : Text → Option (Text × Text)
  | '.' :: s => digitRun? s
  | s => some ([], s)

/-- The sign and digits of an exponent behind its letter. -/
def exponentDigits? : Text → Option ((ExponentSign × Text) × Text)
  | '+' :: s => (digitRun? s).map fun p => ((.plus, p.1), p.2)
  | '-' :: s => (digitRun? s).map fun p => ((.minus, p.1), p.2)
  | s => (digitRun? s).map fun p => ((.none, p.1), p.2)

/-- The exponent, if there is one. -/
def exponentPart? : Text → Option (Option (ExponentSign × Text) × Text)
  | 'e' :: s | 'E' :: s => (exponentDigits? s).map fun p => (some p.1, p.2)
  | s => some (none, s)

/-- The sign in front, if there is one. -/
def signPart : Text → Bool × Text
  | '-' :: s => (true, s)
  | s => (false, s)

/-- A number and the text behind it. -/
def parseNumber (s : Text) : Option (Numeral × Text) := do
  let (negative, s) := signPart s
  let (whole, s) ← wholePart? s
  let (fraction, s) ← fractionPart? s
  let (exponent, s) ← exponentPart? s
  return (⟨negative, whole, fraction, exponent⟩, s)

/-! ## Values -/

mutual
/-- A value and the text behind it. -/
def parseValue : Nat → Text → Option (Json × Text)
  | 0, _ => none
  | fuel + 1, s =>
    match skipBlanks s with
    | 'n' :: 'u' :: 'l' :: 'l' :: r => some (null, r)
    | 't' :: 'r' :: 'u' :: 'e' :: r => some (bool true, r)
    | 'f' :: 'a' :: 'l' :: 's' :: 'e' :: r => some (bool false, r)
    | '"' :: r => (parseString r).map fun p => (string p.1, p.2)
    | '[' :: r =>
      match skipBlanks r with
      | ']' :: r => some (array [], r)
      | r => (parseItems fuel r).map fun p => (array p.1, p.2)
    | '\x7b' :: r =>
      match skipBlanks r with
      | '\x7d' :: r => some (object [], r)
      | r => (parseMembers fuel r).map fun p => (object p.1, p.2)
    | r => (parseNumber r).map fun p => (number p.1, p.2)

/-- The items of an array up to its closing bracket. -/
def parseItems : Nat → Text → Option (List Json × Text)
  | 0, _ => none
  | fuel + 1, s =>
    match parseValue fuel s with
    | none => none
    | some (v, r) =>
      match skipBlanks r with
      | ']' :: r => some ([v], r)
      | ',' :: r => (parseItems fuel r).map fun p => (v :: p.1, p.2)
      | _ => none

/-- The members of an object up to its closing brace. -/
def parseMembers : Nat → Text → Option (List (Option Text × Json) × Text)
  | 0, _ => none
  | fuel + 1, s =>
    match skipBlanks s with
    | '"' :: r =>
      match parseString r with
      | none => none
      | some (k, r) =>
        match skipBlanks r with
        | ':' :: r =>
          match parseValue fuel r with
          | none => none
          | some (v, r) =>
            match skipBlanks r with
            | '\x7d' :: r => some ([(k, v)], r)
            | ',' :: r => (parseMembers fuel r).map fun p => ((k, v) :: p.1, p.2)
            | _ => none
        | _ => none
    | _ => none
end

/-- The value that a text stands for. -/
def parse (s : Text) : Option Json :=
  match parseValue (s.length + 1) s with
  | some (v, r) => if skipBlanks r = [] then some v else none
  | none => none

end NetDial.Json
