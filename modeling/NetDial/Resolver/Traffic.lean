import NetDial.Resolver.Lookup

/-!
# Lookups at the same time

A resolver is used by many callers at once. A lookup runs until it waits for a
server; while it waits, other lookups run, servers reply to others, caches are
emptied and time passes, in any order. `Traffic.step` is one step of that: it
fixes neither how long servers take nor what they reply.

Two lookups of one host that wait at the same time both ask the server, and both
store what they hear.
-/
namespace NetDial

/-- Where a lookup is: it waits for a server, or is done. -/
inductive CallState where
  | waiting (server : Server) (host : Domain) (next : Answer → Lookup)
  | answered (answer : Answer)

namespace Lookup

/-- Runs a lookup at an instant until it waits for a server or is done. -/
def settle (now : Nat) : Lookup → (Nat → Cache) → CallState × (Nat → Cache)
  | done a, caches => (.answered a, caches)
  | ask server host next, caches => (.waiting server host next, caches)
  | consult number host next, caches => settle now (next ((caches number).fresh? now host)) caches
  | store number ttl host ips next, caches =>
    settle now next fun n =>
      if n = number then (caches number).store now ttl host ips else caches n

end Lookup

/-- A caller's lookup of a host. -/
structure Call where
  host : Domain
  state : CallState

/-- The lookups so far, in the order in which they were called, at an instant
and over what caches hold. -/
structure Traffic where
  now : Nat := 0
  caches : Nat → Cache := fun _ => .empty
  calls : List Call := []

/-- What may happen. -/
inductive TrafficStep where
  | call (host : Domain)
  | reply (call : Nat) (answer : Answer)
  | clear (cache : Nat)
  | tick (duration : Nat)

namespace Traffic

/-- The traffic of a resolver after a step, if the step may be taken: only a
lookup that waits can have a reply. -/
def step (r : Resolver) (t : Traffic) : TrafficStep → Option Traffic
  | .call host =>
    let (state, caches) := (r.lookup host).settle t.now t.caches
    some { t with caches := caches, calls := t.calls ++ [⟨host, state⟩] }
  | .reply i a =>
    match t.calls[i]? with
    | some ⟨host, .waiting _ _ next⟩ =>
      let (state, caches) := (next a).settle t.now t.caches
      some { t with caches := caches, calls := t.calls.set i ⟨host, state⟩ }
    | _ => none
  | .clear number => some { t with caches := fun n => if n = number then .empty else t.caches n }
  | .tick d => some { t with now := t.now + d }

/-- The traffic of a resolver after steps, if each may be taken. -/
def run (r : Resolver) (t : Traffic) (steps : List TrafficStep) : Option Traffic :=
  steps.foldlM (step r) t

end Traffic
end NetDial
