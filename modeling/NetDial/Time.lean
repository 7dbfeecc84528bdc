import NetDial.Text.Digits

/-!
# Time

Time is counted in nanoseconds: an instant from the start of the clock, a
duration from its start to its end. The clock ends at `clockEnd`; what would lie
beyond it is no instant.
-/
namespace NetDial

/-- Nanoseconds in a second. -/
def nanosPerSecond : Nat :=
  1000000000

/-- Nanoseconds in a millisecond. -/
def nanosPerMilli : Nat :=
  1000000

/-- The end of the clock's range: it counts seconds in 63 bits. -/
def clockEnd : Nat :=
  UInt64.size / 2 * nanosPerSecond

/-- The instant `d` after `t`, if the clock reaches it. -/
def instantAfter? (t d : Nat) : Option Nat :=
  if t + d < clockEnd then some (t + d) else none

namespace Duration

/-- A duration of whole seconds. -/
def ofSecs (n : Nat) : Nat :=
  n * nanosPerSecond

/-- A duration of whole milliseconds. -/
def ofMillis (n : Nat) : Nat :=
  n * nanosPerMilli

/-- The whole seconds of a duration. -/
def secs (d : Nat) : Nat :=
  d / nanosPerSecond

/-- The nanoseconds of a duration beyond its whole seconds. -/
def subsecNanos (d : Nat) : Nat :=
  d % nanosPerSecond

/-- A number of units written as `whole.fraction`, the fraction having `places`
digits of which zeros at the end are left out. -/
def unitText (whole fraction places : Nat) (unit : Text) : Text :=
  let digits := Text.padZeros places (Text.decimal fraction)
  let kept := (digits.reverse.dropWhile (· == '0')).reverse
  Text.decimal whole ++ (if kept = [] then [] else '.' :: kept) ++ unit

/-- The duration in its largest unit with a whole part: seconds, milliseconds,
microseconds or nanoseconds. -/
def text (d : Nat) : Text :=
  if nanosPerSecond ≤ d then unitText (secs d) (subsecNanos d) 9 "s".toList
  else if 1000000 ≤ d then unitText (d / 1000000) (d % 1000000) 6 "ms".toList
  else if 1000 ≤ d then unitText (d / 1000) (d % 1000) 3 "µs".toList
  else unitText d 0 0 "ns".toList

end Duration
end NetDial
