import NetDial.Resolver.Cache

/-!
# Resolvers

A resolver is built from tables, refusals and name servers. A chain of resolvers
tries one after the other; a cache keeps the answers of the resolver inside it.
Boxing and sharing change nothing but the description.

Caches and servers are told apart by number: what a cache holds, and how often
a server was asked, is kept outside of the resolver under that number.
-/
namespace NetDial

/-- A name server. Servers of one name are told apart by number. -/
structure Server where
  name : Text
  number : Nat
  deriving DecidableEq, Repr

/-- The resolver of the host itself. -/
def Server.system : Server :=
  ⟨"SystemResolver".toList, 0⟩

/-- Maps hosts to addresses. -/
inductive Resolver where
  | table (table : Table)
  | deny
  | server (server : Server)
  | chain (members : List Resolver)
  | cache (number : Nat) (ttl : Nat) (inner : Resolver)
  | boxed (inner : Resolver)
  | shared (inner : Resolver)

namespace Resolver

/-- The resolver of the host itself. -/
def system : Resolver :=
  server .system

mutual
/-- The servers of a resolver, in the order in which a chain tries them. -/
def servers : Resolver → List Server
  | table _ => []
  | deny => []
  | server s => [s]
  | chain members => serversOf members
  | cache _ _ inner => servers inner
  | boxed inner => servers inner
  | shared inner => servers inner

/-- The servers of resolvers in order. -/
def serversOf : List Resolver → List Server
  | [] => []
  | r :: rs => servers r ++ serversOf rs
end

/-- The description of a cache: what it is around, its time to live and how many
entries it holds. -/
def describeCache (inner : Text) (ttl : Nat) (entries : Nat) : Text :=
  Text.describeRecord "CacheResolver".toList
    [("inner".toList, inner), ("ttl".toList, Duration.text ttl),
      ("entries".toList, Text.decimal entries)]

mutual
/-- The description of a resolver, caches holding `entries`. A box hides what
is in it. -/
def describe (entries : Nat → Nat) : Resolver → Text
  | table _ => "StaticResolver".toList
  | deny => "DenyAllResolver".toList
  | server s => s.name
  | chain members => '[' :: Text.join ", ".toList (describeAll entries members) ++ [']']
  | cache number ttl inner => describeCache (describe entries inner) ttl (entries number)
  | boxed _ => "BoxResolver".toList
  | shared inner => describe entries inner

/-- The descriptions of resolvers in order. -/
def describeAll (entries : Nat → Nat) : List Resolver → List Text
  | [] => []
  | r :: rs => describe entries r :: describeAll entries rs
end

end Resolver
end NetDial
