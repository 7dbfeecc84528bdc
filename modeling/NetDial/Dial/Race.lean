import NetDial.Dial.Attempt

/-!
# Races

A race has one attempt per candidate. Attempts end in any order and send what
came of them into a channel; a receiver takes from the channel up to the first
connection, which wins, and goes away. A connection that is in the channel then,
or is sent afterwards, is closed. If there is no connection, the error received
last stands for all.

`Race.step` is one step of that, on attempts known by their number, and
`Race.verdict?` its outcome; `Verdict.ofArrivals` gives the outcome by the order
of arrival alone.
-/
namespace NetDial

/-- The outcome of a race: the attempt whose connection won, or the one whose
error came last. -/
inductive Verdict (α : Type) where
  | won (attempt : α)
  | lost (last : Option α)
  deriving DecidableEq, Repr

/-- The outcome when attempts arrive in this order. -/
def Verdict.ofArrivals {α : Type} (ok : α → Bool) (order : List α) : Verdict α :=
  match order.find? ok with
  | some a => .won a
  | none => .lost order.getLast?

/-- The attempts that are received when they arrive in this order, and those
that come after the race is decided. -/
def splitArrivals {α : Type} (ok : α → Bool) : List α → List α × List α
  | [] => ([], [])
  | a :: as =>
    if ok a then ([a], as)
    else ((a :: (splitArrivals ok as).1), (splitArrivals ok as).2)

/-- A race that is going on. -/
structure Race where
  running : List Nat
  capacity : Nat
  channel : List Nat := []
  receiving : Bool := true
  winner : Option Nat := none
  lastError : Option Nat := none
  closed : List Nat := []
  deriving DecidableEq, Repr

/-- What may happen in a race. -/
inductive RaceStep where
  | finish (attempt : Nat)
  | receive
  | hangUp
  deriving DecidableEq, Repr

namespace Race

/-- The start of a race among so many attempts, whose channel has a place for
each. -/
def start (count : Nat) : Race :=
  { running := List.range count, capacity := count }

/-- The race after a step, if the step may be taken; `ok` tells which attempts
get a connection. A full channel makes a sender wait, and one without receiver
gives back what is sent. -/
def step (ok : Nat → Bool) (r : Race) : RaceStep → Option Race
  | .finish i =>
    if i ∉ r.running then none
    else if !r.receiving then
      some { r with
        running := r.running.erase i
        closed := if ok i then r.closed ++ [i] else r.closed }
    else if r.channel.length < r.capacity then
      some { r with running := r.running.erase i, channel := r.channel ++ [i] }
    else none
  | .receive =>
    match r.receiving, r.winner, r.channel with
    | true, none, i :: rest =>
      if ok i then some { r with channel := rest, winner := some i }
      else some { r with channel := rest, lastError := some i }
    | _, _, _ => none
  | .hangUp =>
    if r.receiving && r.winner.isSome then
      some { r with receiving := false, channel := [], closed := r.closed ++ r.channel.filter ok }
    else none

/-- The race after steps, if each may be taken. -/
def run (ok : Nat → Bool) (r : Race) (steps : List RaceStep) : Option Race :=
  steps.foldlM (step ok) r

/-- The outcome, once the receiver has it. -/
def verdict? (r : Race) : Option (Verdict Nat) :=
  match r.winner with
  | some i => some (.won i)
  | none => if r.running = [] ∧ r.channel = [] then some (.lost r.lastError) else none

/-- Nothing is going on any more: all attempts finished, and the receiver has
its connection and went away, or has found the channel empty. -/
def isOver (r : Race) : Prop :=
  r.running = [] ∧ (r.receiving = false ∨ r.winner = none ∧ r.channel = [])

/-- The attempts in the order in which they finish. -/
def arrivals (steps : List RaceStep) : List Nat :=
  steps.filterMap fun
    | .finish i => some i
    | _ => none

end Race
end NetDial
