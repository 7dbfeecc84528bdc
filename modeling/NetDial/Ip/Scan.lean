import NetDial.Text.Digits

/-!
# Digit runs of IP literals

The two readers of numbers inside literals. Both gather the value in a 32-bit
word and stop at the first character that is no digit. The decimal reader gives
up once the value reaches `decimalLimit`; the hexadecimal reader takes at most
four digits.
-/
namespace NetDial.Ip

/-- Far above any octet or port, and small enough that one more digit cannot
overflow 32 bits. -/
def decimalLimit : UInt32 :=
  0xffffff

/-- Reads decimal digits, `n` being the value so far. -/
def scanDecimalFrom (n : UInt32) : Text → Option (UInt32 × Text)
  | [] => some (n, [])
  | c :: s =>
    if c.isDigit then
      let m := n * 10 + UInt32.ofNat (Text.digitValue c)
      if decimalLimit ≤ m then none else scanDecimalFrom m s
    else some (n, c :: s)

/-- The value of the leading run of decimal digits and the text behind it.
There must be a digit, and the value must stay below `decimalLimit`. -/
def scanDecimal? (s : Text) : Option (UInt32 × Text) :=
  match s with
  | [] => none
  | c :: _ => if c.isDigit then scanDecimalFrom 0 s else none

/-- Reads at most `room` hexadecimal digits, `n` being the value so far; one
digit more is a failure. -/
def scanHexFrom : Nat → UInt32 → Text → Option (UInt32 × Text)
  | _, n, [] => some (n, [])
  | room, n, c :: s =>
    match Text.hexValue? c, room with
    | none, _ => some (n, c :: s)
    | some _, 0 => none
    | some d, room + 1 => scanHexFrom room (n * 16 + UInt32.ofNat d) s

/-- The value of a leading run of one to four hexadecimal digits and the text
behind it. -/
def scanHex? (s : Text) : Option (UInt32 × Text) :=
  match s with
  | [] => none
  | c :: _ => if (Text.hexValue? c).isSome then scanHexFrom 4 0 s else none

end NetDial.Ip
