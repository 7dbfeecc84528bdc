import NetDial.Text.Digits
import NetDial.Text.Unprintable

/-!
# Quoted texts

The quoted form of a text as it stands in descriptions of values: between
double quotes, with quotes, backslashes and everything that does not print
escaped. Descriptions of optional values and of records stand beside it.
-/
namespace NetDial.Text

/-- A character as it stands between quotes. -/
def quoteChar (c : Char) : Text :=
  if c = '"' then "\\\"".toList
  else if c = '\\' then "\\\\".toList
  else if c = '\n' then "\\n".toList
  else if c = '\r' then "\\r".toList
  else if c = '\t' then "\\t".toList
  else if c = '\x00' then "\\0".toList
  else if isPrintable c then [c]
  else "\\u\x7b".toList ++ hexadecimal c.toNat ++ "\x7d".toList

/-- The text between double quotes. -/
def quoted (s : Text) : Text :=
  '"' :: s.flatMap quoteChar ++ ['"']

/-- The description of an optional value. -/
def describeOption (value : Option Text) : Text :=
  match value with
  | none => "None".toList
  | some v => "Some(".toList ++ v ++ ")".toList

/-- The fields of a record with their names. -/
def describeFields (fields : List (Text × Text)) : Text :=
  join ", ".toList (fields.map fun f => f.1 ++ ": ".toList ++ f.2)

/-- The description of a record: its name and its fields in braces. -/
def describeRecord (name : Text) (fields : List (Text × Text)) : Text :=
  name ++ " \x7b ".toList ++ describeFields fields ++ " \x7d".toList

/-- The description of a record that has more fields than it shows. -/
def describeOpenRecord (name : Text) (fields : List (Text × Text)) : Text :=
  name ++ " \x7b ".toList ++ describeFields fields ++ ", .. \x7d".toList

end NetDial.Text
