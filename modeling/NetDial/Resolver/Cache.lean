import NetDial.Resolver.Table
import NetDial.Time

/-!
# Caches

A cache keeps the addresses of hosts that were looked up with success, each
with the instant at which they expire. They are fresh up to that instant, but
not at it. A time to live of zero, or one that the clock does not reach, means
that they never expire. An expired entry stays until the next one of its host
takes its place.

**Results.**
* `find?_store_self`, `find?_store_of_ne`: a cache holds what was stored last
  for a host, and storing for one host leaves the others alone.
-/
namespace NetDial

/-- Addresses and when they expire, if ever. -/
structure CacheEntry where
  ips : List Ip
  expiry : Option Nat
  deriving DecidableEq

/-- The entry may still be used. -/
def CacheEntry.isFresh (e : CacheEntry) (now : Nat) : Bool :=
  e.expiry.all fun t => now < t

/-- When what is stored now expires. -/
def expiryAfter (now : Nat) (ttl : Nat) : Option Nat :=
  if ttl = 0 then none else instantAfter? now ttl

/-- Entries by host, each host once. -/
structure Cache where
  entries : List (Domain × CacheEntry) := []
  deriving DecidableEq

namespace Cache

/-- The cache that holds nothing. -/
def empty : Cache :=
  {}

/-- The number of entries, expired ones included. -/
def length (c : Cache) : Nat :=
  c.entries.length

/-- The cache holds nothing. -/
def isEmpty (c : Cache) : Bool :=
  c.entries.isEmpty

/-- The entry of a host, fresh or not. -/
def find? (c : Cache) (host : Domain) : Option CacheEntry :=
  c.entries.lookup host

/-- The fresh addresses of a host. -/
def fresh? (c : Cache) (now : Nat) (host : Domain) : Option (List Ip) :=
  (c.find? host).bind fun e => if e.isFresh now then some e.ips else none

/-- The cache after addresses of a host were stored. -/
def store (c : Cache) (now : Nat) (ttl : Nat) (host : Domain) (ips : List Ip) : Cache :=
  ⟨Keyed.put host ⟨ips, expiryAfter now ttl⟩ c.entries⟩

theorem find?_store_self (c : Cache) (now : Nat) (ttl : Nat) (host : Domain)
    (ips : List Ip) : (c.store now ttl host ips).find? host = some ⟨ips, expiryAfter now ttl⟩ :=
  Keyed.lookup_put_self host _ c.entries

theorem find?_store_of_ne (c : Cache) (now : Nat) (ttl : Nat) {host other : Domain}
    (ips : List Ip) (h : other ≠ host) : (c.store now ttl host ips).find? other = c.find? other :=
  Keyed.lookup_put_of_ne h _ c.entries

end Cache
end NetDial
