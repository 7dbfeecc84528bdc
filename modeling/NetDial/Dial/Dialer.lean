import NetDial.Dial.Directory
import NetDial.Dial.Race
import NetDial.Settings

/-!
# Dialing

A dialer connects to an address on a named network: it resolves the address,
picks candidates with its filter and tries them. On a stream network all of them
are raced; on the others only the first is tried. Its deadline is the earlier of
its own and the end of its timeout, and bounds the resolution and each attempt.

A dial fails, in this order of precedence, because the deadline has passed, the
network is not known, the resolution fails, or no candidate is left. Only then
is the connector called.
-/
namespace NetDial

/-- How to dial. -/
structure Dialer extends Directory where
  connector : Connector
  filter : Filter := .default
  timeout : Option Nat := none
  deadline : Option Nat := none
  localAddr : Option NetAddr := none
  keepAlive : Option Nat := none

namespace Dialer

/-- The dialer of a host itself. -/
def onHost (h : Host) : Dialer :=
  { h.directory with connector := .system h.sockets }

/-- The resolver of settings: that of the host, with a cache if answers are to
be kept. -/
def resolverOf (s : Settings) : Resolver :=
  match s.cacheTtl with
  | some ttl => .boxed (.cache 0 ttl .system)
  | none => .boxed .system

/-- The dialer of a host with these settings. -/
def ofSettings (h : Host) (arrange : List Nat → Arrangement) (s : Settings) : Dialer :=
  { onHost h with
    resolver := resolverOf s
    filter := s.filter.filter arrange
    timeout := s.timeout
    keepAlive := s.keepAlive }

/-- The end of the timeout of a dial that starts now. A timeout of zero, or
one that ends beyond the clock, is none. -/
def timeoutEnd? (d : Dialer) (now : Nat) : Option Nat :=
  match d.timeout with
  | none => none
  | some t => if t = 0 then none else instantAfter? now t

/-- The deadline of a dial that starts now. -/
def effectiveDeadline (d : Dialer) (now : Nat) : Option Nat :=
  match d.timeoutEnd? now, d.deadline with
  | some t, some u => some (Nat.min t u)
  | some t, none => some t
  | none, u => u

/-- The options of the attempts of a dial. -/
def options (d : Dialer) (deadline : Option Nat) : ConnectOptions :=
  ⟨deadline, d.localAddr, d.keepAlive⟩

/-- The addresses to try of those that were found. -/
def candidates (d : Dialer) (n : Network) (found : AddrList) : List NetAddr :=
  let picked := (d.filter.filterAddrs found).addrs
  if n.isStream then picked else picked.take 1

/-- The attempts at candidates that end, in the order of their calls: there is one
call for each place. -/
def attempts (d : Dialer) (n : Network) (options : ConnectOptions) (now : Nat)
    (candidates : List NetAddr) : List Attempt :=
  candidates.zipIdx.filterMap fun p => d.connector.attempt? p.2 n options now p.1

/-- The attempts at candidates that end, in the order in which they do. -/
def arrivals (d : Dialer) (n : Network) (options : ConnectOptions) (now : Nat)
    (candidates : List NetAddr) : List Attempt :=
  (d.attempts n options now candidates).mergeSort fun a b => a.finish ≤ b.finish

/-- The error of a race that was lost. Had there been no attempt at all, it
would count as a timeout. -/
def lostError (network : Text) (last : Option Attempt) : DialError :=
  match last with
  | some ⟨_, addr, _, _, some e⟩ => .ofConnect network addr.text e
  | _ => .expired network

/-- What a dial comes to when its race is decided. -/
def outcome (network : Text) : Verdict Attempt → Except DialError NetAddr
  | .won a => .ok a.addr
  | .lost last => .error (lostError network last)

end Dialer

namespace Session

/-- Waits for attempts in the order in which they end, and reports them. -/
def receive (s : Session) (r : Resolver) (attempts : List Attempt) : Session :=
  attempts.foldl (fun s a => (s.runTo a.finish).notify r a.event) s

/-- Leaves attempts to themselves. Those that end now do so at once. -/
def abandon (s : Session) (r : Resolver) (attempts : List Attempt) : Session :=
  (attempts.foldl (fun s a => s.defer a.finish (.attempt a r)) s).runTo s.now

/-- Tries candidates, all at once. -/
def connect (s : Session) (d : Dialer) (network : Text) (n : Network) (options : ConnectOptions)
    (candidates : List NetAddr) : Option (Except DialError NetAddr) × Session :=
  let opened := candidates.zipIdx.foldl (fun s p => s.recordOpening p.2 n p.1 options) s
  let order := d.arrivals n options s.now candidates
  let (received, late) := splitArrivals Attempt.succeeds order
  let decided := opened.receive d.resolver received
  let verdict := Verdict.ofArrivals Attempt.succeeds order
  match verdict with
  | .won a => (some (Dialer.outcome network verdict), (decided.abandon d.resolver late).hold a.addr)
  | .lost _ =>
    if order.length < candidates.length then (none, decided)
    else (some (Dialer.outcome network verdict), decided)

/-- Dials an address on a named network. -/
def dial (s : Session) (d : Dialer) (network address : Text) :
    Option (Except DialError NetAddr) × Session :=
  let deadline := d.effectiveDeadline s.now
  if deadline.any fun t => t ≤ s.now then (some (.error (.expired network)), s)
  else
    match Network.parse network with
    | .error e => (some (.error (.malformed network (.root (.unknownNetwork e)))), s)
    | .ok n =>
      match s.resolve d.toDirectory deadline n address with
      | (none, s) => (none, s)
      | (some (.error e), s) => (some (.error (.ofResolve network e)), s)
      | (some (.ok found), s) =>
        match d.candidates n found with
        | [] => (some (.error (.ofResolve network .noSuitableAddress)), s)
        | a :: as => s.connect d network n (d.options deadline) (a :: as)

/-- Resolves an address on a named network as a dial does, without trying what
is found. -/
def resolveDial (s : Session) (d : Dialer) (network address : Text) :
    Option (Except DialError AddrList) × Session :=
  match Network.parse network with
  | .error e => (some (.error (.malformed network (.root (.unknownNetwork e)))), s)
  | .ok n =>
    match s.resolve d.toDirectory (d.effectiveDeadline s.now) n address with
    | (none, s) => (none, s)
    | (some (.error e), s) => (some (.error (.ofResolve network e)), s)
    | (some (.ok found), s) => (some (.ok found), s)

end Session
end NetDial
