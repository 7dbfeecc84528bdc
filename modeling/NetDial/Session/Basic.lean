import NetDial.Resolver.Lookup
import NetDial.Resolver.Script
import NetDial.Session.Record

/-!
# Sessions

A session is where lookups and attempts take place: its clock, how the servers
reply, what caches hold and how often servers were asked, the work that goes on
by itself, the connections that were handed out, and the record of it all.

Work that goes on by itself is a lookup that nobody waits for any more, a lookup
whose answer is collected, or an attempt that ends after its race is decided.
-/
namespace NetDial

/-- What caches hold, and how often servers were asked for a host. -/
structure Memory where
  caches : Nat → Cache := fun _ => .empty
  asked : Server → Domain → Nat := fun _ _ => 0

namespace Memory

/-- The memory with another content of a cache. -/
def setCache (m : Memory) (number : Nat) (c : Cache) : Memory :=
  { m with caches := fun n => if n = number then c else m.caches n }

/-- The memory after a server was asked for a host once more. -/
def count (m : Memory) (server : Server) (host : Domain) : Memory :=
  { m with asked := fun s h =>
      if s = server ∧ h = host then m.asked s h + 1 else m.asked s h }

end Memory

/-- Work that goes on by itself. -/
inductive Work where
  | lookup (rest : Lookup) (ticket : Option Nat)
  | attempt (attempt : Attempt) (resolver : Resolver)

/-- Work that goes on when it is due. -/
structure Task where
  due : Nat
  work : Work

/-- A session. -/
structure Session where
  servers : Servers
  now : Nat := 0
  memory : Memory := {}
  tasks : List Task := []
  answers : List (Nat × Answer) := []
  held : List NetAddr := []
  record : Record := {}

namespace Session

/-- What a cache holds. -/
def cache (s : Session) (number : Nat) : Cache :=
  s.memory.caches number

/-- The fresh addresses of a host in a cache. -/
def fresh? (s : Session) (number : Nat) (host : Domain) : Option (List Ip) :=
  (s.cache number).fresh? s.now host

/-- Stores addresses of a host in a cache. -/
def store (s : Session) (number : Nat) (ttl : Nat) (host : Domain) (ips : List Ip) : Session :=
  { s with memory := s.memory.setCache number ((s.cache number).store s.now ttl host ips) }

/-- Empties a cache. -/
def clear (s : Session) (number : Nat) : Session :=
  { s with memory := s.memory.setCache number .empty }

/-- The reply that a server is going to give. -/
def reply (s : Session) (server : Server) (host : Domain) : Reply :=
  s.servers server host (s.memory.asked server host)

/-- The session after a server was asked. -/
def ask (s : Session) (server : Server) (host : Domain) : Session :=
  { s with
    memory := s.memory.count server host
    record := { s.record with questions := s.record.questions ++ [⟨server, host, s.now⟩] } }

/-- Has work go on at an instant. -/
def defer (s : Session) (due : Nat) (work : Work) : Session :=
  { s with tasks := s.tasks ++ [⟨due, work⟩] }

/-- Collects the answer of a lookup that has a ticket. -/
def collect (s : Session) (ticket : Option Nat) (a : Answer) : Session :=
  match ticket with
  | some t => { s with answers := s.answers ++ [(t, a)] }
  | none => s

/-- Records that an attempt started. -/
def recordOpening (s : Session) (call : Nat) (network : Network) (addr : NetAddr)
    (options : ConnectOptions) : Session :=
  { s with
    record :=
      { s.record with openings := s.record.openings ++ [⟨call, network, addr, s.now, options⟩] } }

/-- Reports an event to a resolver. -/
def notify (s : Session) (r : Resolver) (e : DialEvent) : Session :=
  { s with record := { s.record with reports := s.record.reports ++ r.notify e s.now } }

/-- Records that a connection was closed. -/
def recordClosing (s : Session) (addr : NetAddr) : Session :=
  { s with record := { s.record with closings := s.record.closings ++ [⟨addr, s.now⟩] } }

/-- Hands out a connection. -/
def hold (s : Session) (addr : NetAddr) : Session :=
  { s with held := s.held ++ [addr] }

/-- Closes every connection that was handed out. -/
def closeAll (s : Session) : Session :=
  { s.held.foldl recordClosing s with held := [] }

/-- The session with nothing recorded so far. -/
def forget (s : Session) : Session :=
  { s with record := {} }

end Session
end NetDial
