import NetDial.Dial.Attempt
import NetDial.Resolver.Basic

/-!
# Records

What happened in a session, in the order in which it did: questions to servers,
attempts that started, reports of attempts that ended, and connections that were
closed.
-/
namespace NetDial

/-- A question that a server was asked. -/
structure Question where
  server : Server
  host : Domain
  time : Nat
  deriving DecidableEq

/-- An attempt that started, with the number that its call has in its dial. -/
structure Opening where
  call : Nat
  network : Network
  addr : NetAddr
  time : Nat
  options : ConnectOptions
  deriving DecidableEq, Repr

/-- An event that reached a server. -/
structure Report where
  server : Server
  time : Nat
  event : DialEvent
  deriving DecidableEq, Repr

/-- A connection that was closed. -/
structure Closing where
  addr : NetAddr
  time : Nat
  deriving DecidableEq, Repr

/-- Everything that happened. -/
structure Record where
  questions : List Question := []
  openings : List Opening := []
  reports : List Report := []
  closings : List Closing := []
  deriving DecidableEq

/-- The reports of an event to a resolver: every server in it hears of it. -/
def Resolver.notify (r : Resolver) (e : DialEvent) (time : Nat) : List Report :=
  r.servers.map fun s => ⟨s, time, e⟩

/-- Reports in the order of their times, then of their addresses, then of their
servers. -/
def Report.le (a b : Report) : Bool :=
  match compare a.time b.time, Text.order a.event.addr.text b.event.addr.text with
  | .lt, _ => true
  | .gt, _ => false
  | .eq, .lt => true
  | .eq, .gt => false
  | .eq, .eq => Text.le a.server.name b.server.name

/-- Closings in the order of their times, then of their addresses. -/
def Closing.le (a b : Closing) : Bool :=
  match compare a.time b.time with
  | .lt => true
  | .gt => false
  | .eq => Text.le a.addr.text b.addr.text

/-- The same record, whatever happened at one instant being in a fixed
order. -/
def Record.arranged (r : Record) : Record :=
  { r with reports := r.reports.mergeSort Report.le, closings := r.closings.mergeSort Closing.le }

end NetDial
