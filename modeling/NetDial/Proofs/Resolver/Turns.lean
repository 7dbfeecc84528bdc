import NetDial.Resolver.Basic

/-!
# Resolvers in turn

Resolvers are visited one after the other, up to the first that does not fail.
That is said of anything that resolvers may do, which leaves a log and ends with an
answer or without one (`InTurn`), and then once more without recursion: by the turns
that came (`Turns`).

**Results.**
* `inTurn_append_iff`: resolvers at the front are like a single one.
* `inTurn_iff`: whose turns come, and that the last of them decides.
-/
namespace NetDial.Resolver

/-- A resolver's turn: what it did, and how that ended. -/
structure Turn (α : Type) where
  resolver : Resolver
  log : List α
  outcome : Option Answer

/-- The turn ended with an error. -/
def Turn.Fails {α : Type} (t : Turn α) : Prop :=
  ∃ e, t.outcome = some (.error e)

/-- Resolvers are visited in order until one does not fail. If all fail, the error
is that of the last one, and `failure` if there are none. -/
inductive InTurn {α : Type} (visit : Resolver → List α → Option Answer → Prop) :
    Error → List Resolver → List α → Option Answer → Prop where
  | none (failure : Error) : InTurn visit failure [] [] (some (.error failure))
  | stop {failure : Error} {r : Resolver} {rs : List Resolver} {log : List α}
      {outcome : Option Answer} (h : visit r log outcome)
      (hstop : ∀ e, outcome ≠ some (.error e)) : InTurn visit failure (r :: rs) log outcome
  | pass {failure e : Error} {r : Resolver} {rs : List Resolver} {front back : List α}
      {outcome : Option Answer} (h : visit r front (some (.error e)))
      (hrest : InTurn visit e rs back outcome) :
      InTurn visit failure (r :: rs) (front ++ back) outcome

/-- The turns that came: they are those of the first members, all but the last one
failed, and only if that failed too was everybody visited. -/
structure Turns {α : Type} (visit : Resolver → List α → Option Answer → Prop)
    (members : List Resolver) (turns : List (Turn α)) : Prop where
  inOrder : turns.map Turn.resolver <+: members
  visits : ∀ t ∈ turns, visit t.resolver t.log t.outcome
  failed : ∀ t ∈ turns.dropLast, t.Fails
  stopped : (∃ t ∈ turns.getLast?, ¬ t.Fails) ∨ turns.map Turn.resolver = members

/-- The last turn decides; if there is nobody, the error is `failure`. -/
def Decided {α : Type} (failure : Error) (members : List Resolver) (turns : List (Turn α))
    (outcome : Option Answer) : Prop :=
  members = [] ∧ outcome = some (.error failure) ∨ ∃ t ∈ turns.getLast?, outcome = t.outcome

/-! ## Visits in turn -/

section InTurn

variable {α : Type} {visit : Resolver → List α → Option Answer → Prop} {failure : Error}
  {r : Resolver} {rs front members : List Resolver} {log : List α} {outcome : Option Answer}

theorem inTurn_nil_iff :
    InTurn visit failure [] log outcome ↔ log = [] ∧ outcome = some (.error failure) :=
  ⟨fun h => by cases h; exact ⟨rfl, rfl⟩, fun ⟨hl, ho⟩ => hl ▸ ho ▸ .none failure⟩

theorem inTurn_cons_iff :
    InTurn visit failure (r :: rs) log outcome ↔
      (∃ front e back, visit r front (some (.error e)) ∧ InTurn visit e rs back outcome ∧
        log = front ++ back) ∨
        visit r log outcome ∧ ∀ e, outcome ≠ some (.error e) := by
  constructor
  · intro h
    cases h with
    | stop h hstop => exact .inr ⟨h, hstop⟩
    | pass h hrest => exact .inl ⟨_, _, _, h, hrest, rfl⟩
  · rintro (⟨front, e, back, h, hrest, rfl⟩ | ⟨h, hstop⟩)
    · exact .pass h hrest
    · exact .stop h hstop

/-- Whoever comes first decides about the error. -/
theorem inTurn_cons_failure (failure' : Error) :
    InTurn visit failure (r :: rs) log outcome ↔ InTurn visit failure' (r :: rs) log outcome := by
  rw [inTurn_cons_iff, inTurn_cons_iff]

/-- A part at the front is like one resolver. -/
theorem inTurn_append_iff :
    InTurn visit failure (front ++ rs) log outcome ↔
      (∃ before e after, InTurn visit failure front before (some (.error e)) ∧
        InTurn visit e rs after outcome ∧ log = before ++ after) ∨
        InTurn visit failure front log outcome ∧ ∀ e, outcome ≠ some (.error e) := by
  induction front generalizing failure log with
  | nil =>
    simp only [List.nil_append, inTurn_nil_iff]
    constructor
    · exact fun h => .inl ⟨[], failure, log, ⟨rfl, rfl⟩, h, rfl⟩
    · rintro (⟨before, e, after, ⟨rfl, he⟩, h, rfl⟩ | ⟨⟨-, ho⟩, hstop⟩)
      · cases he
        exact h
      · exact absurd ho (hstop failure)
  | cons r front ih =>
    constructor
    · intro h
      rcases inTurn_cons_iff.1 h with ⟨first, e, rest, hr, hrest, rfl⟩ | ⟨hr, hstop⟩
      · rcases ih.1 hrest with ⟨before, e', after, hbefore, hafter, rfl⟩ | ⟨hrest, hstop⟩
        · exact .inl ⟨first ++ before, e', after, .pass hr hbefore, hafter,
            (List.append_assoc _ _ _).symm⟩
        · exact .inr ⟨.pass hr hrest, hstop⟩
      · exact .inr ⟨.stop hr hstop, hstop⟩
    · rintro (⟨before, e, after, hbefore, hafter, rfl⟩ | ⟨h, hstop⟩)
      · rcases inTurn_cons_iff.1 hbefore with ⟨first, e', rest, hr, hrest, rfl⟩ | ⟨-, hstop⟩
        · rw [List.append_assoc]
          exact .pass hr (ih.2 (.inl ⟨rest, e, after, hrest, hafter, rfl⟩))
        · exact absurd rfl (hstop e)
      · rcases inTurn_cons_iff.1 h with ⟨first, e, rest, hr, hrest, rfl⟩ | ⟨hr, -⟩
        · exact .pass hr (ih.2 (.inr ⟨hrest, hstop⟩))
        · exact .stop hr hstop

/-! ## Turns -/

theorem Turns.eq_nil_iff {turns : List (Turn α)} (h : Turns visit members turns) :
    turns = [] ↔ members = [] := by
  constructor
  · rintro rfl
    rcases h.stopped with ⟨t, ht, -⟩ | hall
    · cases ht
    · exact hall.symm
  · rintro rfl
    exact List.map_eq_nil_iff.1 (List.prefix_nil.1 h.inOrder)

theorem Turns.nil : Turns visit [] [] where
  inOrder := List.prefix_rfl
  visits _ h := nomatch h
  failed _ h := nomatch h
  stopped := .inr rfl

theorem Turns.stop (h : visit r log outcome) (hstop : ∀ e, outcome ≠ some (.error e)) :
    Turns visit (r :: rs) [⟨r, log, outcome⟩] where
  inOrder := ⟨rs, rfl⟩
  visits _ hu := List.mem_singleton.1 hu ▸ h
  failed _ hu := nomatch hu
  stopped := .inl ⟨_, rfl, fun ⟨e, he⟩ => hstop e he⟩

theorem Turns.pass {e : Error} {turns : List (Turn α)} (h : visit r log (some (.error e)))
    (hrest : Turns visit rs turns) :
    Turns visit (r :: rs) (⟨r, log, some (.error e)⟩ :: turns) where
  inOrder := List.cons_prefix_cons.2 ⟨rfl, hrest.inOrder⟩
  visits u hu := by
    rcases List.mem_cons.1 hu with rfl | hu
    · exact h
    · exact hrest.visits u hu
  failed u hu := by
    cases turns with
    | nil => cases hu
    | cons t turns =>
      rcases List.mem_cons.1 hu with rfl | hu
      · exact ⟨e, rfl⟩
      · exact hrest.failed u hu
  stopped := by
    rcases hrest.stopped with ⟨u, hu, hstop⟩ | hall
    · refine .inl ⟨u, ?_, hstop⟩
      rw [Option.mem_def] at hu ⊢
      rw [List.getLast?_cons, hu]
      rfl
    · exact .inr (by rw [List.map_cons, hall])

/-- The first turn is the only one, or it failed and the others follow. -/
theorem Turns.cases_cons {turns : List (Turn α)} (h : Turns visit (r :: rs) turns) :
    ∃ t rest, turns = t :: rest ∧ t.resolver = r ∧ visit r t.log t.outcome ∧
      (t.Fails ∧ Turns visit rs rest ∨ ¬ t.Fails ∧ rest = []) := by
  cases turns with
  | nil => cases h.eq_nil_iff.1 rfl
  | cons t rest =>
    obtain ⟨rfl, hrest⟩ : t.resolver = r ∧ rest.map Turn.resolver <+: rs :=
      List.cons_prefix_cons.1 h.inOrder
    refine ⟨t, rest, rfl, rfl, h.visits t List.mem_cons_self, ?_⟩
    cases rest with
    | nil =>
      by_cases hfails : t.Fails
      · refine .inl ⟨hfails, hrest, by simp, by simp, .inr ?_⟩
        rcases h.stopped with ⟨u, hu, hstop⟩ | hall
        · cases hu
          exact absurd hfails hstop
        · exact (List.cons.inj hall).2
      · exact .inr ⟨hfails, rfl⟩
    | cons t' rest =>
      have hfails : t.Fails := h.failed t List.mem_cons_self
      refine .inl ⟨hfails, hrest, fun u hu => h.visits u (List.mem_cons_of_mem t hu),
        fun u hu => h.failed u (List.mem_cons_of_mem t hu), ?_⟩
      rcases h.stopped with ⟨u, hu, hstop⟩ | hall
      · exact .inl ⟨u, hu, hstop⟩
      · exact .inr (List.cons.inj hall).2

/-- How the last turn ended; nobody's is the error `failure`. -/
def lastOutcome (failure : Error) (turns : List (Turn α)) : Option Answer :=
  turns.getLast?.elim (some (.error failure)) Turn.outcome

theorem lastOutcome_cons (t : Turn α) (turns : List (Turn α)) :
    lastOutcome failure (t :: turns) = turns.getLast?.elim t.outcome Turn.outcome := by
  rw [lastOutcome, List.getLast?_cons]
  cases turns.getLast? <;> rfl

theorem InTurn.exists_turns (h : InTurn visit failure members log outcome) :
    ∃ turns, Turns visit members turns ∧ outcome = lastOutcome failure turns ∧
      log = turns.flatMap Turn.log := by
  induction h with
  | none failure => exact ⟨[], .nil, rfl, rfl⟩
  | stop h hstop => exact ⟨_, .stop h hstop, rfl, (List.append_nil _).symm⟩
  | pass h _ ih =>
    obtain ⟨turns, hturns, houtcome, hlog⟩ := ih
    refine ⟨_, .pass h hturns, ?_, ?_⟩
    · rw [lastOutcome_cons, houtcome]
      rfl
    · rw [List.flatMap_cons, hlog]

theorem inTurn_of_turns {turns : List (Turn α)} (h : Turns visit members turns) :
    InTurn visit failure members (turns.flatMap Turn.log) (lastOutcome failure turns) := by
  induction members generalizing failure turns with
  | nil =>
    rw [h.eq_nil_iff.2 rfl]
    exact .none failure
  | cons r rs ih =>
    obtain ⟨t, rest, rfl, -, hvisit, ⟨⟨e, he⟩, hrest⟩ | ⟨hstop, rfl⟩⟩ := h.cases_cons
    · rw [he] at hvisit
      rw [lastOutcome_cons, he]
      exact .pass hvisit (ih hrest)
    · rw [lastOutcome_cons, List.flatMap_cons, List.flatMap_nil, List.append_nil]
      exact .stop hvisit fun e he => hstop ⟨e, he⟩

theorem Turns.decided_iff {turns : List (Turn α)} (h : Turns visit members turns) :
    Decided failure members turns outcome ↔ outcome = lastOutcome failure turns := by
  rw [Decided, ← h.eq_nil_iff, lastOutcome]
  cases hlast : turns.getLast? with
  | none => simp [List.getLast?_eq_none_iff.1 hlast]
  | some t =>
    have hne : turns ≠ [] := by rintro rfl; cases hlast
    simp [hne]

/-- Turns come in order up to the first that does not fail, and the last one
decides. -/
theorem inTurn_iff :
    InTurn visit failure members log outcome ↔
      ∃ turns, Turns visit members turns ∧ Decided failure members turns outcome ∧
        log = turns.flatMap Turn.log := by
  constructor
  · intro h
    obtain ⟨turns, hturns, houtcome, hlog⟩ := h.exists_turns
    exact ⟨turns, hturns, hturns.decided_iff.2 houtcome, hlog⟩
  · rintro ⟨turns, hturns, hdecided, rfl⟩
    rw [hturns.decided_iff.1 hdecided]
    exact inTurn_of_turns hturns

end InTurn

end NetDial.Resolver
