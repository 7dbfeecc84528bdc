import NetDial.Decimal.Seconds
import NetDial.Filter.PolicyJson

/-!
# Settings

The settings of a dialer that can be written down: how long a dial and the
pauses between keep-alive probes may last, which addresses to try, and how long
answers of the resolver are kept. Settings are a JSON object, or an array of
their values in the order of the fields. What is missing takes its default.
-/
namespace NetDial

/-- The settings of a dialer. -/
structure Settings where
  timeout : Option Nat := none
  keepAlive : Option Nat := none
  filter : Policy := .default
  cacheTtl : Option Nat := none
  deriving Repr

namespace Settings

/-- Two settings are the same. -/
def same (s t : Settings) : Bool :=
  s.timeout == t.timeout && s.keepAlive == t.keepAlive && s.filter.same t.filter &&
    s.cacheTtl == t.cacheTtl

/-- The fields of the settings. -/
inductive Field where
  | timeout
  | keepAlive
  | filter
  | cacheTtl
  deriving DecidableEq, Repr

/-- The name of a field. -/
def Field.name : Field → Text
  | timeout => "timeout".toList
  | keepAlive => "keep_alive".toList
  | filter => "filter".toList
  | cacheTtl => "cache_ttl".toList

/-- The fields in the order in which they are written. -/
def fields : List Field :=
  [.timeout, .keepAlive, .filter, .cacheTtl]

/-- An optional duration: `null` or a number of seconds. -/
def durationOfJson : Json → Option (Option Nat)
  | .null => some none
  | .number n => (Duration.ofNumeral? n).map some
  | _ => none

/-- The settings with a field set from a value. One bracket, that of the
settings themselves, is open around a policy. -/
def set (s : Settings) (f : Field) (v : Json) : Option Settings :=
  match f with
  | .timeout => (durationOfJson v).map fun d => { s with timeout := d }
  | .keepAlive => (durationOfJson v).map fun d => { s with keepAlive := d }
  | .cacheTtl => (durationOfJson v).map fun d => { s with cacheTtl := d }
  | .filter => (Policy.ofJsonWithin (maxOpenBrackets - 1) v).map fun p => { s with filter := p }

/-- Sets the members of an object, `seen` being the fields set before. A field
is set at most once, and members that are no field are ignored; each name must
be a text. -/
def setMembers (s : Settings) (seen : List Field) : List (Option Text × Json) → Option Settings
  | [] => some s
  | (none, _) :: _ => none
  | (some k, v) :: ms =>
    match fields.find? fun f => f.name == k with
    | none => setMembers s seen ms
    | some f =>
      if f ∈ seen then none
      else
        match s.set f v with
        | some s => setMembers s (f :: seen) ms
        | none => none

/-- Sets the fields in order from as many values. -/
def setItems (s : Settings) : List Field → List Json → Option Settings
  | _, [] => some s
  | [], _ :: _ => none
  | f :: fs, v :: vs =>
    match s.set f v with
    | some s => setItems s fs vs
    | none => none

/-- The settings of a value. -/
def ofJson : Json → Option Settings
  | .object ms => setMembers {} [] ms
  | .array vs => setItems {} fields vs
  | _ => none

/-- The member of a duration, if there is one. -/
def durationMember (f : Field) (d : Option Nat) : List (Option Text × Json) :=
  match d with
  | none => []
  | some d => [(some f.name, .number (Duration.toNumeral d))]

/-- The object that stands for settings; durations that are not set are left
out. -/
def toJson (s : Settings) : Json :=
  .object (durationMember .timeout s.timeout ++ durationMember .keepAlive s.keepAlive
    ++ [(some Field.filter.name, s.filter.toJson)] ++ durationMember .cacheTtl s.cacheTtl)

/-- The settings that a JSON text stands for. -/
def read (s : Text) : Option Settings :=
  (Json.parse s).bind ofJson

/-- The compact JSON text of settings. -/
def write (s : Settings) : Text :=
  s.toJson.render

end Settings
end NetDial
