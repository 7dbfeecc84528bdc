import NetDial.Resolver.Basic

/-!
# Lookups

What a resolver does to look up a host, step by step: it consults a cache, asks
a server and waits for the answer, or stores an answer in a cache.
A lookup says nothing about how long servers take or what else goes on
meanwhile; whoever runs it decides that.

**Results.**
* `bind_done`, `bind_assoc`: lookups that follow one another may be grouped at
  will.
-/
namespace NetDial

/-- What is left to do of a lookup. -/
inductive Lookup where
  | done (answer : Answer)
  | ask (server : Server) (host : Domain) (next : Answer → Lookup)
  | consult (cache : Nat) (host : Domain) (next : Option (List Ip) → Lookup)
  | store (cache : Nat) (ttl : Nat) (host : Domain) (ips : List Ip) (next : Lookup)

namespace Lookup

/-- Goes on with `next` where the lookup would be done. -/
def bind : Lookup → (Answer → Lookup) → Lookup
  | done a, next => next a
  | ask s host rest, next => ask s host fun a => bind (rest a) next
  | consult c host rest, next => consult c host fun found => bind (rest found) next
  | store c ttl host ips rest, next => store c ttl host ips (bind rest next)

theorem bind_done (l : Lookup) : l.bind done = l := by
  induction l with
  | done a => rfl
  | ask s host rest ih => simp [bind, ih]
  | consult c host rest ih => simp [bind, ih]
  | store c ttl host ips rest ih => simp [bind, ih]

theorem bind_assoc (l : Lookup) (f g : Answer → Lookup) :
    (l.bind f).bind g = l.bind fun a => (f a).bind g := by
  induction l with
  | done a => rfl
  | ask s host rest ih => simp [bind, ih]
  | consult c host rest ih => simp [bind, ih]
  | store c ttl host ips rest ih => simp [bind, ih]

/-- Stores an answer with addresses in a cache. -/
def storing (cache : Nat) (ttl : Nat) (host : Domain) : Answer → Lookup
  | .ok ips => store cache ttl host ips (done (.ok ips))
  | .error e => done (.error e)

end Lookup

namespace Resolver

/-- The error of a chain without members. -/
def emptyChain : Error :=
  .ofText "empty resolver chain".toList

mutual
/-- The lookup of a host. A cache that holds fresh addresses answers by
itself; else the resolver inside answers, and addresses are stored. -/
def lookup (host : Domain) : Resolver → Lookup
  | table t => .done (t.resolve host)
  | deny => .done (.error (.root .lookupDenied))
  | server s => .ask s host .done
  | chain members => firstOf host emptyChain members
  | cache number ttl inner =>
    .consult number host fun
      | some ips => .done (.ok ips)
      | none => (lookup host inner).bind (.storing number ttl host)
  | boxed inner => lookup host inner
  | shared inner => lookup host inner

/-- Tries resolvers in order up to the first that finds the host; if there is
none, the error is that of the last one, and `failure` if there are no
resolvers. -/
def firstOf (host : Domain) (failure : Error) : List Resolver → Lookup
  | [] => .done (.error failure)
  | r :: rs =>
    (lookup host r).bind fun
      | .ok ips => .done (.ok ips)
      | .error e => firstOf host e rs
end

end Resolver
end NetDial
