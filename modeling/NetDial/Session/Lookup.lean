import NetDial.Session.Clock

/-!
# Lookups in a session

Waiting for a lookup lets the time pass that its servers take. It may end at a
deadline: a lookup that is not done by then goes on by itself, so that caches
learn what it finds, but nobody learns its answer.
-/
namespace NetDial

/-- How waiting for a lookup ends. -/
inductive Awaited where
  | answered (answer : Answer)
  | late
  | forever

namespace Session

/-- Waits for a lookup up to a deadline. A server that replies exactly at the
deadline is late. -/
def await (deadline : Option Nat) : Lookup → Session → Awaited × Session
  | .done a, s => (.answered a, s)
  | .consult number host next, s => await deadline (next (s.fresh? number host)) s
  | .store number ttl host ips next, s => await deadline next (s.store number ttl host ips)
  | .ask server host next, s =>
    match s.reply server host, deadline with
    | ⟨none, _⟩, none => (.forever, s.ask server host)
    | ⟨none, _⟩, some t => (.late, (s.ask server host).runTo t)
    | ⟨some d, a⟩, none => await none (next a) ((s.ask server host).runTo (s.now + d))
    | ⟨some d, a⟩, some t =>
      if s.now + d < t then
        await (some t) (next a) ((s.ask server host).runTo (s.now + d))
      else
        (.late, ((s.ask server host).defer (s.now + d) (.lookup (next a) none)).runTo t)

/-- Looks up a host, and waits for the answer up to a deadline. -/
def lookup (s : Session) (r : Resolver) (deadline : Option Nat) (host : Domain) :
    Awaited × Session :=
  s.await deadline (r.lookup host)

/-- Lets time pass until `count` answers are collected, doing the next task at
most `fuel` times. -/
def awaitAnswers (count : Nat) : Nat → Session → Session
  | 0, s => s
  | fuel + 1, s =>
    if count ≤ s.answers.length then s
    else
      match s.nextDue? with
      | none => s
      | some t => awaitAnswers count fuel (s.runTo t)

/-- Starts a lookup of every host, the tickets counting from `first`. -/
def startAll (r : Resolver) (first : Nat) : List Domain → Session → Session
  | [], s => s
  | host :: hosts, s => startAll r (first + 1) hosts (s.run (some first) (r.lookup host))

/-- Looks up hosts all at once and waits for the answers, which come in the
order of the hosts. Every lookup asks each server of the resolver at most once,
and waits for it at most once. An answer that never comes is missing. -/
def lookupAll (s : Session) (r : Resolver) (hosts : List Domain) : List (Option Answer) × Session :=
  let started := startAll r 0 hosts { s with answers := [] }
  let waits := started.tasks.length * (r.servers.length + 1)
  let finished := awaitAnswers hosts.length waits started
  ((List.range hosts.length).map fun i => finished.answers.lookup i, { finished with answers := [] })

end Session
end NetDial
