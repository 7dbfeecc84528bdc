import NetDial.Proofs.Resolver.Runs
import NetDial.Proofs.Resolver.Turns

/-!
# Chains of resolvers

A chain is done with its members in turn. What it does is seen in two ways: by the
events of its lookups, and by the calls of leaves, which are the resolvers that are
no chains and stand in no box (`Calls`). Leaves behave in any way.

**Results.**
* `runs_firstOf_iff`: the members of a chain look up the host in turn.
* `runs_lookup_iff`: a lookup does what the calls that it makes do, one after the
  other.
* `firstOf_of_regroups`, `inTurn_calls_of_regroups`: members may be grouped in chains
  of their own, boxed and shared.
* `firstOf_tables`: of tables the first that has addresses of the host answers.
* `chain_in_turn`: all of this.
-/
namespace NetDial

namespace Table

/-- The addresses of a host, if it is mapped to any. -/
def mapped? (t : Table) (host : Domain) : Option (List Ip) :=
  (t.get? host).filter (· ≠ [])

theorem resolve_eq (t : Table) (host : Domain) :
    t.resolve host = (t.mapped? host).elim (.error (.root .hostNotMapped)) .ok := by
  unfold resolve mapped?
  split
  · rename_i ip ips hget
    rw [hget]
    rfl
  · rename_i hno
    cases hget : t.get? host with
    | none => rfl
    | some ips =>
      cases ips with
      | nil => rfl
      | cons ip ips => exact absurd hget (hno ip ips)

end Table

namespace Resolver

/-! ## What a lookup does -/

/-- What the lookup of the host does, and how it ends. -/
def Runs (host : Domain) (r : Resolver) : List LookupEvent → Option Answer → Prop :=
  (r.lookup host).Runs

/-- A resolver that is no chain, and stands in no box. -/
def IsLeaf : Resolver → Prop
  | chain _ => False
  | boxed _ => False
  | shared _ => False
  | _ => True

/-- The leaves that are called for a lookup, each with what it does. -/
inductive Calls (host : Domain) : Resolver → List (Turn LookupEvent) → Option Answer → Prop where
  | leaf {r : Resolver} {events : List LookupEvent} {outcome : Option Answer} (hleaf : r.IsLeaf)
      (h : r.Runs host events outcome) : Calls host r [⟨r, events, outcome⟩] outcome
  | chain {members : List Resolver} {calls : List (Turn LookupEvent)} {outcome : Option Answer}
      (h : InTurn (Calls host) emptyChain members calls outcome) :
      Calls host (.chain members) calls outcome
  | boxed {inner : Resolver} {calls : List (Turn LookupEvent)} {outcome : Option Answer}
      (h : Calls host inner calls outcome) : Calls host (.boxed inner) calls outcome
  | shared {inner : Resolver} {calls : List (Turn LookupEvent)} {outcome : Option Answer}
      (h : Calls host inner calls outcome) : Calls host (.shared inner) calls outcome

section Calls

variable {host : Domain} {r : Resolver} {rs members front : List Resolver} {failure : Error}
  {events : List LookupEvent} {calls : List (Turn LookupEvent)} {outcome : Option Answer}

theorem calls_leaf_iff (hleaf : r.IsLeaf) :
    Calls host r calls outcome ↔
      ∃ events, r.Runs host events outcome ∧ calls = [⟨r, events, outcome⟩] := by
  constructor
  · intro h
    cases h with
    | leaf _ h => exact ⟨_, h, rfl⟩
    | chain _ => exact hleaf.elim
    | boxed _ => exact hleaf.elim
    | shared _ => exact hleaf.elim
  · rintro ⟨events, h, rfl⟩
    exact .leaf hleaf h

theorem calls_chain_iff :
    Calls host (.chain members) calls outcome ↔
      InTurn (Calls host) emptyChain members calls outcome := by
  constructor
  · intro h
    cases h with
    | leaf hleaf => exact hleaf.elim
    | chain h => exact h
  · exact .chain

theorem calls_boxed_iff : Calls host (.boxed r) calls outcome ↔ Calls host r calls outcome := by
  constructor
  · intro h
    cases h with
    | leaf hleaf => exact hleaf.elim
    | boxed h => exact h
  · exact .boxed

theorem calls_shared_iff : Calls host (.shared r) calls outcome ↔ Calls host r calls outcome := by
  constructor
  · intro h
    cases h with
    | leaf hleaf => exact hleaf.elim
    | shared h => exact h
  · exact .shared

/-- How a chain goes on after a member's answer. -/
def goOn (host : Domain) (rs : List Resolver) : Answer → Lookup
  | .ok ips => .done (.ok ips)
  | .error e => firstOf host e rs

theorem firstOf_cons (host : Domain) (failure : Error) (r : Resolver) (rs : List Resolver) :
    firstOf host failure (r :: rs) = (r.lookup host).bind (goOn host rs) := by
  rw [firstOf]
  rfl

theorem goOn_congr {rs' : List Resolver}
    (h : ∀ e, firstOf host e rs = firstOf host e rs') : goOn host rs = goOn host rs' := by
  funext a
  cases a with
  | ok ips => rfl
  | error e => exact h e

/-- The members of a chain look up the host in turn. -/
theorem runs_firstOf_iff :
    (firstOf host failure rs).Runs events outcome ↔
      InTurn (Runs host) failure rs events outcome := by
  induction rs generalizing failure events with
  | nil => rw [firstOf, Lookup.runs_done_iff, inTurn_nil_iff]
  | cons r rs ih =>
    rw [firstOf_cons, Lookup.runs_bind_iff]
    constructor
    · rintro (⟨front, a, back, hr, hback, rfl⟩ | ⟨rfl, hr⟩)
      · cases a with
        | error e => exact .pass hr (ih.1 hback)
        | ok ips =>
          obtain ⟨rfl, rfl⟩ := Lookup.runs_done_iff.1 hback
          rw [List.append_nil]
          exact .stop hr (by simp)
      · exact .stop hr (by simp)
    · intro h
      rcases inTurn_cons_iff.1 h with ⟨front, e, back, hr, hrest, rfl⟩ | ⟨hr, hstop⟩
      · exact .inl ⟨front, .error e, back, hr, ih.2 hrest, rfl⟩
      · match outcome, hr, hstop with
        | none, hr, _ => exact .inr ⟨rfl, hr⟩
        | some (.error e), _, hstop => exact absurd rfl (hstop e)
        | some (.ok ips), hr, _ =>
          exact .inl ⟨events, .ok ips, [], hr, .done (.ok ips), (List.append_nil _).symm⟩

theorem runs_leaf_iff (hleaf : r.IsLeaf) :
    r.Runs host events outcome ↔
      ∃ calls, Calls host r calls outcome ∧ events = calls.flatMap Turn.log := by
  simp only [calls_leaf_iff hleaf]
  constructor
  · exact fun h => ⟨_, ⟨events, h, rfl⟩, (List.append_nil _).symm⟩
  · rintro ⟨calls, ⟨events, h, rfl⟩, rfl⟩
    rwa [List.flatMap_cons, List.flatMap_nil, List.append_nil]

mutual
/-- A lookup does what the calls that it makes do, one after the other. -/
theorem runs_lookup_iff (host : Domain) : ∀ (r : Resolver) (events : List LookupEvent)
    (outcome : Option Answer),
    r.Runs host events outcome ↔
      ∃ calls, Calls host r calls outcome ∧ events = calls.flatMap Turn.log
  | .table t, events, outcome => runs_leaf_iff trivial
  | .deny, events, outcome => runs_leaf_iff trivial
  | .server s, events, outcome => runs_leaf_iff trivial
  | .cache number ttl inner, events, outcome => runs_leaf_iff trivial
  | .chain members, events, outcome => by
    simp only [calls_chain_iff]
    exact runs_firstOf_iff.trans (inTurn_runs_iff host members emptyChain events outcome)
  | .boxed inner, events, outcome => by
    simp only [calls_boxed_iff]
    exact runs_lookup_iff host inner events outcome
  | .shared inner, events, outcome => by
    simp only [calls_shared_iff]
    exact runs_lookup_iff host inner events outcome

theorem inTurn_runs_iff (host : Domain) : ∀ (rs : List Resolver) (failure : Error)
    (events : List LookupEvent) (outcome : Option Answer),
    InTurn (Runs host) failure rs events outcome ↔
      ∃ calls, InTurn (Calls host) failure rs calls outcome ∧ events = calls.flatMap Turn.log
  | [], failure, events, outcome => by
    simp only [inTurn_nil_iff]
    constructor
    · rintro ⟨rfl, ho⟩
      exact ⟨[], ⟨rfl, ho⟩, rfl⟩
    · rintro ⟨calls, ⟨rfl, ho⟩, rfl⟩
      exact ⟨rfl, ho⟩
  | r :: rs, failure, events, outcome => by
    constructor
    · intro h
      rcases inTurn_cons_iff.1 h with ⟨front, e, back, hr, hrest, rfl⟩ | ⟨hr, hstop⟩
      · obtain ⟨first, hfirst, rfl⟩ := (runs_lookup_iff host r _ _).1 hr
        obtain ⟨rest, hrest', rfl⟩ := (inTurn_runs_iff host rs _ _ _).1 hrest
        exact ⟨first ++ rest, .pass hfirst hrest', List.flatMap_append.symm⟩
      · obtain ⟨calls, hcalls, rfl⟩ := (runs_lookup_iff host r _ _).1 hr
        exact ⟨calls, .stop hcalls hstop, rfl⟩
    · rintro ⟨calls, h, rfl⟩
      rcases inTurn_cons_iff.1 h with ⟨first, e, rest, hfirst, hrest, rfl⟩ | ⟨hcalls, hstop⟩
      · rw [List.flatMap_append]
        exact .pass ((runs_lookup_iff host r _ _).2 ⟨first, hfirst, rfl⟩)
          ((inTurn_runs_iff host rs _ _ _).2 ⟨rest, hrest, rfl⟩)
      · exact .stop ((runs_lookup_iff host r _ _).2 ⟨calls, hcalls, rfl⟩) hstop
end

/-! ## Chains of chains -/

/-- The same resolvers in the same order, some of them grouped in chains that are
not empty, and any of all these boxed or shared. -/
inductive Regroups : List Resolver → List Resolver → Prop where
  | nil : Regroups [] []
  | keep {r : Resolver} {rs members : List Resolver} (h : Regroups rs members) :
      Regroups (r :: rs) (r :: members)
  | group {r : Resolver} {front inner rs members : List Resolver}
      (hinner : Regroups (r :: front) inner) (h : Regroups rs members) :
      Regroups (r :: front ++ rs) (.chain inner :: members)
  | boxed {r : Resolver} {rs members : List Resolver} (h : Regroups rs (r :: members)) :
      Regroups rs (.boxed r :: members)
  | shared {r : Resolver} {rs members : List Resolver} (h : Regroups rs (r :: members)) :
      Regroups rs (.shared r :: members)

theorem firstOf_cons_failure (host : Domain) (failure failure' : Error) (r : Resolver)
    (rs : List Resolver) : firstOf host failure (r :: rs) = firstOf host failure' (r :: rs) := by
  rw [firstOf_cons, firstOf_cons]

theorem firstOf_append (host : Domain) (failure : Error) (front rs : List Resolver) :
    firstOf host failure (front ++ rs) = (firstOf host failure front).bind (goOn host rs) := by
  induction front generalizing failure with
  | nil => rw [firstOf]; rfl
  | cons r front ih =>
    rw [List.cons_append, firstOf_cons, firstOf_cons, Lookup.bind_assoc]
    congr 1
    funext a
    cases a with
    | ok ips => rfl
    | error e => exact ih e

/-- The calls that leaves take in turn are their turns. -/
theorem inTurn_calls_leaves_iff (hleaves : ∀ r ∈ rs, r.IsLeaf) :
    InTurn (Calls host) failure rs calls outcome ↔
      Turns (Runs host) rs calls ∧ outcome = lastOutcome failure calls := by
  induction rs generalizing failure calls with
  | nil =>
    rw [inTurn_nil_iff]
    constructor
    · rintro ⟨rfl, ho⟩
      exact ⟨.nil, ho⟩
    · rintro ⟨hturns, ho⟩
      obtain rfl := hturns.eq_nil_iff.2 rfl
      exact ⟨rfl, ho⟩
  | cons r rs ih =>
    have hr : r.IsLeaf := hleaves r List.mem_cons_self
    have hrest := fun l hl => hleaves l (List.mem_cons_of_mem r hl)
    rw [inTurn_cons_iff]
    constructor
    · rintro (⟨front, e, back, hcall, hback, rfl⟩ | ⟨hcall, hstop⟩)
      · obtain ⟨events, hruns, rfl⟩ := (calls_leaf_iff hr).1 hcall
        obtain ⟨hturns, ho⟩ := (ih hrest).1 hback
        refine ⟨.pass hruns hturns, ?_⟩
        rw [List.singleton_append, lastOutcome_cons]
        exact ho
      · obtain ⟨events, hruns, rfl⟩ := (calls_leaf_iff hr).1 hcall
        exact ⟨.stop hruns hstop, rfl⟩
    · rintro ⟨hturns, ho⟩
      obtain ⟨t, rest, rfl, rfl, hvisit, ⟨⟨e, he⟩, hafter⟩ | ⟨hstop, rfl⟩⟩ := hturns.cases_cons
      · rw [lastOutcome_cons, he] at ho
        refine .inl ⟨[t], e, rest, ?_, (ih hrest).2 ⟨hafter, ho⟩, rfl⟩
        rw [← he]
        exact .leaf hr hvisit
      · rw [lastOutcome_cons] at ho
        subst ho
        exact .inr ⟨.leaf hr hvisit, fun e he => hstop ⟨e, he⟩⟩

theorem lookup_chain_single (host : Domain) (r : Resolver) :
    lookup host (.chain [r]) = lookup host r := by
  have hdone : goOn host [] = .done := by
    funext a
    cases a with
    | ok ips => rfl
    | error e => rw [goOn, firstOf]
  rw [lookup, firstOf_cons, hdone, Lookup.bind_done]

theorem calls_chain_single :
    Calls host (.chain [r]) calls outcome ↔ Calls host r calls outcome := by
  rw [calls_chain_iff, inTurn_cons_iff]
  constructor
  · rintro (⟨front, e, back, hr, hnil, rfl⟩ | ⟨hr, -⟩)
    · obtain ⟨rfl, rfl⟩ := inTurn_nil_iff.1 hnil
      rwa [List.append_nil]
    · exact hr
  · intro hr
    by_cases hfails : ∃ e, outcome = some (.error e)
    · obtain ⟨e, rfl⟩ := hfails
      exact .inl ⟨calls, e, [], hr, .none e, (List.append_nil _).symm⟩
    · exact .inr ⟨hr, fun e he => hfails ⟨e, he⟩⟩

/-- Grouping, boxing and sharing leave the lookup as it is. -/
theorem firstOf_of_regroups (h : Regroups rs members) (failure : Error) :
    firstOf host failure members = firstOf host failure rs := by
  induction h generalizing failure with
  | nil => rfl
  | keep _ ih => rw [firstOf_cons, firstOf_cons, goOn_congr ih]
  | @group r front inner rs members _ _ ihinner ih =>
    -- The group has a first member, so it does not matter with which error it starts.
    have hgroup : lookup host (.chain inner) = firstOf host failure (r :: front) :=
      (ihinner emptyChain).trans (firstOf_cons_failure host emptyChain failure r front)
    rw [firstOf_cons, firstOf_append, hgroup, goOn_congr ih]
  | boxed _ ih => exact ih failure
  | shared _ ih => exact ih failure

/-- The same leaves are called, in the same order. -/
theorem inTurn_calls_of_regroups (h : Regroups rs members) (failure : Error)
    (calls : List (Turn LookupEvent)) (outcome : Option Answer) :
    InTurn (Calls host) failure members calls outcome ↔
      InTurn (Calls host) failure rs calls outcome := by
  induction h generalizing failure calls outcome with
  | nil => exact .rfl
  | keep _ ih => simp only [inTurn_cons_iff, ih]
  | @group r front inner rs members _ _ ihinner ih =>
    have hgroup : ∀ calls outcome, Calls host (.chain inner) calls outcome ↔
        InTurn (Calls host) failure (r :: front) calls outcome := fun calls outcome =>
      calls_chain_iff.trans ((ihinner emptyChain calls outcome).trans (inTurn_cons_failure failure))
    rw [inTurn_cons_iff, inTurn_append_iff]
    simp only [hgroup, ih]
  | boxed _ ih =>
    rw [← ih, inTurn_cons_iff, inTurn_cons_iff]
    simp only [calls_boxed_iff]
  | shared _ ih =>
    rw [← ih, inTurn_cons_iff, inTurn_cons_iff]
    simp only [calls_shared_iff]

/-- A chain without members has an error of its own: as the last member of a chain
it would be noticed. -/
example : lookup host (.chain [.deny, .chain []]) = .done (.error emptyChain) ∧
    lookup host (.chain [.deny]) = .done (.error (.root .lookupDenied)) :=
  ⟨rfl, rfl⟩

/-! ## Chains of tables -/

theorem firstOf_tables (host : Domain) (tables : List Table) :
    firstOf host (.root .hostNotMapped) (tables.map .table) =
      .done ((tables.findSome? fun t => t.mapped? host).elim
        (.error (.root .hostNotMapped)) .ok) := by
  induction tables with
  | nil => rw [List.map_nil, firstOf]; rfl
  | cons t tables ih =>
    rw [List.map_cons, firstOf_cons, lookup, Lookup.bind, t.resolve_eq, List.findSome?_cons]
    cases t.mapped? host with
    | none => exact ih
    | some ips => rfl

theorem lookup_chain_tables {tables : List Table} (h : tables ≠ []) :
    lookup host (.chain (tables.map .table)) =
      .done ((tables.findSome? fun t => t.mapped? host).elim
        (.error (.root .hostNotMapped)) .ok) := by
  obtain ⟨t, tables, rfl⟩ := List.exists_cons_of_ne_nil h
  rw [lookup, ← firstOf_tables]
  exact firstOf_cons_failure host _ _ _ _

end Calls

/-- **Chains.** The members of a chain look up the host in turn, up to the first
that does not fail, and the last of these decides; that the chain is empty is said
of no other chain. Grouping members in chains that are not empty, with boxes and
shared parts anywhere, changes neither the lookup nor the calls of leaves, so that
the calls of any grouping of leaves are their turns. These calls are all that a
lookup does, in a session too. Of tables the first that maps the host, and no other,
to some address answers. -/
theorem chain_in_turn (host : Domain) :
    (∀ members events outcome, (chain members).Runs host events outcome ↔
      ∃ turns, Turns (Runs host) members turns ∧
        Decided (.ofText "empty resolver chain".toList) members turns outcome ∧
        events = turns.flatMap Turn.log) ∧
    (∀ rs r, Regroups rs [r] →
      r.lookup host = (chain rs).lookup host ∧
      (∀ calls outcome, Calls host r calls outcome ↔ Calls host (chain rs) calls outcome) ∧
      ((∀ l ∈ rs, l.IsLeaf) → ∀ calls outcome, Calls host r calls outcome ↔
        Turns (Runs host) rs calls ∧
          Decided (.ofText "empty resolver chain".toList) rs calls outcome)) ∧
    (∀ r events outcome, r.Runs host events outcome ↔
      ∃ calls, Calls host r calls outcome ∧ events = calls.flatMap Turn.log) ∧
    (∀ (s : Session) r, ∃ calls, Calls host r calls (s.lookup r none host).1.answer? ∧
      (s.tasks = [] → ∃ asked : List Question,
        (s.lookup r none host).2.record.questions = s.record.questions ++ asked ∧
          asked.map (fun q => (q.server, q.host)) =
            (calls.flatMap Turn.log).filterMap LookupEvent.question?)) ∧
    ∀ tables : List Table, tables ≠ [] →
      (chain (tables.map .table)).lookup host =
        .done ((tables.findSome? fun t => t.mapped? host).elim
          (.error (.root .hostNotMapped)) .ok) := by
  refine ⟨fun members events outcome => runs_firstOf_iff.trans inTurn_iff, fun rs r h => ?_,
    runs_lookup_iff host, fun s r => ?_, fun tables h => lookup_chain_tables h⟩
  · have hcalls : ∀ calls outcome,
        Calls host r calls outcome ↔ InTurn (Calls host) emptyChain rs calls outcome := by
      intro calls outcome
      rw [← calls_chain_single, calls_chain_iff]
      exact inTurn_calls_of_regroups h emptyChain calls outcome
    refine ⟨?_, fun calls outcome => ?_, fun hleaves calls outcome => ?_⟩
    · rw [← lookup_chain_single]
      exact firstOf_of_regroups h emptyChain
    · rw [hcalls, calls_chain_iff]
    · rw [hcalls, inTurn_calls_leaves_iff hleaves]
      exact and_congr_right fun hturns => hturns.decided_iff.symm
  · obtain ⟨events, hruns, hasked⟩ := s.exists_runs_of_await (r.lookup host)
    obtain ⟨calls, hcalls, rfl⟩ := (runs_lookup_iff host r _ _).1 hruns
    exact ⟨calls, hcalls, hasked⟩

/-- A refusal, a server and a table, the last two in a shared chain of their own, and
all of it in a box. -/
def nestedChain : Resolver :=
  .boxed (.chain [.deny, .shared (.chain [.server .system, .table .empty])])

theorem chain_in_turn_nested :
    let host : Domain := ⟨"known".toList, by decide⟩
    let leaves : List Resolver := [.deny, .server .system, .table .empty]
    let refused : Turn LookupEvent := ⟨.deny, [], some (.error (.root .lookupDenied))⟩
    let found : Turn LookupEvent :=
      ⟨.server .system, [.asked .system host (.ok [])], some (.ok [])⟩
    Regroups leaves [nestedChain] ∧ (∀ l ∈ leaves, l.IsLeaf) ∧ [Table.empty] ≠ [] ∧
      nestedChain.lookup host = (chain leaves).lookup host ∧
      Calls host nestedChain [refused, found] (some (.ok [])) ∧
      (chain [.table .empty]).lookup host = .done (.error (.root .hostNotMapped)) := by
  intro host leaves refused found
  have hinner : Regroups [.server .system, .table .empty] [.server .system, .table .empty] :=
    .keep (.keep .nil)
  have hregroups : Regroups leaves [nestedChain] :=
    .boxed (.group (.keep (.shared (.group hinner .nil))) .nil)
  have hleaves : ∀ l ∈ leaves, l.IsLeaf := by simp [leaves, IsLeaf]
  have hturns : Turns (Runs host) leaves [refused, found] :=
    .pass (.done _) (.stop (.ask (.done _)) (by simp))
  obtain ⟨-, hchain, -, -, htables⟩ := chain_in_turn host
  obtain ⟨hlookup, -, hcalls⟩ := hchain leaves nestedChain hregroups
  exact ⟨hregroups, hleaves, by simp, hlookup,
    (hcalls hleaves _ _).2 ⟨hturns, .inr ⟨found, rfl, rfl⟩⟩, htables [.empty] (by simp)⟩

end Resolver
end NetDial
