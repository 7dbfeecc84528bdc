import NetDial.Resolver.Basic

/-!
# Replies of servers

A server replies to every question after some time, or never. A script gives
its replies to the questions for each host in order.
-/
namespace NetDial

/-- An answer and how long it takes; without a delay it never comes. -/
structure Reply where
  delay : Option Nat
  answer : Answer

/-- How servers reply, given how often they were asked for the host before. -/
abbrev Servers := Server → Domain → Nat → Reply

/-- The replies to the questions for each host. -/
structure Script where
  hosts : List (Text × List Reply)

/-- The reply of a server that has none for a host. -/
def Reply.noSuchHost (host : Domain) : Reply :=
  ⟨some 0, .error (.ofText ("no such host ".toList ++ host.name))⟩

/-- The reply to a question that comes after `asked` others for the host. The
last reply is repeated. -/
def Script.reply (s : Script) (host : Domain) (asked : Nat) : Reply :=
  match s.hosts.lookup host.name with
  | none => .noSuchHost host
  | some replies => (replies[asked]?.or replies.getLast?).getD (.noSuchHost host)

end NetDial
