import NetDial.Address.Domain
import NetDial.Ip.Literal
import NetDial.Json.Parse
import NetDial.Keyed

/-!
# Address tables

A table maps hosts to lists of IP addresses. A host is found by its exact name;
one that is mapped to no address counts as not mapped. Mapping a host again
replaces its addresses.
-/
namespace NetDial

/-- The answer to a lookup. -/
abbrev Answer := Except Error (List Ip)

/-- Hosts with their addresses, each host once. -/
structure Table where
  entries : List (Domain × List Ip) := []
  deriving DecidableEq

namespace Table

/-- The table with no host. -/
def empty : Table :=
  {}

/-- No host is mapped. -/
def isEmpty (t : Table) : Bool :=
  t.entries.isEmpty

/-- The addresses that a host is mapped to. -/
def get? (t : Table) (host : Domain) : Option (List Ip) :=
  t.entries.lookup host

/-- The table with a host mapped to these addresses. -/
def insert (t : Table) (host : Domain) (ips : List Ip) : Table :=
  ⟨Keyed.put host ips t.entries⟩

/-- The table with all these mappings, the last one of a host standing. -/
def extend (t : Table) (entries : List (Domain × List Ip)) : Table :=
  entries.foldl (fun t e => t.insert e.1 e.2) t

/-- The addresses of a host, or the error that it is not mapped. -/
def resolve (t : Table) (host : Domain) : Answer :=
  match t.get? host with
  | some (ip :: ips) => .ok (ip :: ips)
  | _ => .error (.root .hostNotMapped)

/-- An IP address in the strict form. -/
def ipOfJson : Json → Option Ip
  | .string (some s) => Ip.parseStrict? s
  | _ => none

/-- The mapping of a member: a domain name and an array of addresses. -/
def entryOfJson : Option Text × Json → Option (Domain × List Ip)
  | (some k, .array items) =>
    match Domain.parse? k, items.mapM ipOfJson with
    | some d, some ips => some (d, ips)
    | _, _ => none
  | _ => none

/-- The table that a JSON text stands for. -/
def read (s : Text) : Option Table :=
  match Json.parse s with
  | some (.object ms) => (ms.mapM entryOfJson).map empty.extend
  | _ => none

end Table
end NetDial
