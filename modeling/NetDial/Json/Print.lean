import NetDial.Json.Basic

/-!
# Compact JSON

Values without any blank between their parts. Strings escape the quote, the
backslash and the controls.
-/
namespace NetDial

/-- The number as it is written. -/
def Numeral.text (n : Numeral) : Text :=
  let fraction := if n.fraction = [] then [] else '.' :: n.fraction
  let exponent := match n.exponent with
    | none => []
    | some (.none, ds) => 'e' :: ds
    | some (.plus, ds) => 'e' :: '+' :: ds
    | some (.minus, ds) => 'e' :: '-' :: ds
  (if n.negative then ['-'] else []) ++ n.whole ++ fraction ++ exponent

namespace Json

/-- A character inside a string. -/
def charText (c : Char) : Text :=
  if c = '"' then "\\\"".toList
  else if c = '\\' then "\\\\".toList
  else if c = '\x08' then "\\b".toList
  else if c = '\t' then "\\t".toList
  else if c = '\n' then "\\n".toList
  else if c = '\x0c' then "\\f".toList
  else if c = '\r' then "\\r".toList
  else if c.toNat < 32 then "\\u".toList ++ Text.padZeros 4 (Text.hexadecimal c.toNat)
  else [c]

/-- A text between quotes. -/
def stringText (s : Text) : Text :=
  '"' :: s.flatMap charText ++ ['"']

/-- The text that stands for a string; a string that stands for no text prints
as an unpaired surrogate. -/
def stringContent : Option Text → Text
  | some s => stringText s
  | none => "\"\\ud800\"".toList

mutual
/-- The compact text of a value. -/
def render : Json → Text
  | null => "null".toList
  | bool true => "true".toList
  | bool false => "false".toList
  | number n => n.text
  | string s => stringContent s
  | array [] => "[]".toList
  | array (x :: xs) => '[' :: render x ++ renderItems xs
  | object [] => "\x7b\x7d".toList
  | object ((k, v) :: ms) => '\x7b' :: stringContent k ++ ':' :: render v ++ renderMembers ms

/-- The items of an array behind the first, and its end. -/
def renderItems : List Json → Text
  | [] => [']']
  | x :: xs => ',' :: render x ++ renderItems xs

/-- The members of an object behind the first, and its end. -/
def renderMembers : List (Option Text × Json) → Text
  | [] => ['\x7d']
  | (k, v) :: ms => ',' :: stringContent k ++ ':' :: render v ++ renderMembers ms
end

end Json
end NetDial
