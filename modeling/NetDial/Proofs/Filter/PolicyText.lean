import NetDial.Filter.PolicyJson
import NetDial.Proofs.Filter.PolicyTree
import NetDial.Proofs.Json.RoundTrip

/-!
# Policies read back from their texts

A policy is read back from its text exactly if the text keeps to the bounds of the
reader: no more brackets are open at once than it allows, and no number is wider
than a word. Every policy that any text stands for keeps to them.

**Results.**
* `ofJsonWithin_cases`: what the reader of values accepts.
* `ofJsonWithin_toJson`, `fitsIn_of_ofJsonWithin`: policies and values, both ways.
* `policy_reads_back`: policies and texts.
-/
namespace NetDial

/-! ## Whole numbers -/

theorem Numeral.isWritten_ofNat (n : Nat) : (Numeral.ofNat n).IsWritten :=
  ⟨Text.isDecimal_decimal n, Text.decimal_of_leading, fun h => absurd rfl h,
    fun _ h => by cases h⟩

theorem Numeral.toWord?_ofNat (n : Nat) :
    (Numeral.ofNat n).toWord? = if n < UInt64.size then some n else none := by
  have hvalue := Text.decimalValue_decimal n
  simp [toWord?, ofNat, hvalue]

theorem Numeral.lt_of_toWord? {m : Numeral} {n : Nat} (h : m.toWord? = some n) :
    n < UInt64.size := by
  unfold toWord? at h
  split at h
  · cases h
  · simp only [Option.ite_none_right_eq_some, Option.some.injEq] at h
    exact h.2 ▸ h.1

/-! ## Nesting -/

mutual
/-- How many brackets are open at once in the text of a value. -/
def Json.depth : Json → Nat
  | .array xs => depthOfItems xs + 1
  | .object ms => depthOfMembers ms + 1
  | _ => 0

/-- The depth of the deepest item. -/
def Json.depthOfItems : List Json → Nat
  | [] => 0
  | x :: xs => Nat.max x.depth (depthOfItems xs)

/-- The depth of the deepest member. -/
def Json.depthOfMembers : List (Option Text × Json) → Nat
  | [] => 0
  | (_, v) :: ms => Nat.max v.depth (depthOfMembers ms)
end

theorem Json.depthOfItems_le_iff {room : Nat} {xs : List Json} :
    depthOfItems xs ≤ room ↔ ∀ x ∈ xs, x.depth ≤ room := by
  induction xs with
  | nil => simp [depthOfItems]
  | cons x xs ih =>
    rw [List.forall_mem_cons, ← ih]
    exact Nat.max_le

namespace Policy

variable {room : Nat} {j : Json} {p q : Policy} {ps : List Policy}

/-- The policy has a text that a reader takes, `room` brackets being allowed. -/
structure FitsIn (room : Nat) (p : Policy) : Prop where
  nesting : p.toJson.depth ≤ room
  sizes : ∀ n, max n ∈ p.leaves → n < UInt64.size

/-- The policy has no argument. -/
def IsNamed (p : Policy) : Prop :=
  ∃ name, (name, p) ∈ names

theorem listToJson_eq (ps : List Policy) : listToJson ps = ps.map toJson := by
  induction ps with
  | nil => rfl
  | cons p ps ih => rw [listToJson, ih, List.map_cons]

theorem listOfJsonWithin_listToJson (h : ∀ p ∈ ps, ofJsonWithin room p.toJson = some p) :
    listOfJsonWithin room (listToJson ps) = some ps := by
  induction ps with
  | nil => rfl
  | cons p ps ih =>
    have hp := h p List.mem_cons_self
    have hps := ih fun q hq => h q (List.mem_cons_of_mem p hq)
    rw [listToJson, listOfJsonWithin, hp, hps]

/-- Every policy of a composition comes from one of the items. -/
theorem mem_of_listOfJsonWithin {xs : List Json} (h : listOfJsonWithin room xs = some ps)
    (hp : p ∈ ps) : ∃ x ∈ xs, ofJsonWithin room x = some p := by
  induction xs generalizing ps with
  | nil =>
    cases h
    cases hp
  | cons x xs ih =>
    rw [listOfJsonWithin] at h
    split at h
    · rename_i q qs hq hqs
      cases h
      rcases List.mem_cons.1 hp with rfl | hp
      · exact ⟨x, List.mem_cons_self, hq⟩
      · obtain ⟨y, hy, hread⟩ := ih hqs hp
        exact ⟨y, List.mem_cons_of_mem x hy, hread⟩
    · cases h

/-! ## What fits -/

theorem depth_compose : (compose ps).toJson.depth = Json.depthOfItems (listToJson ps) + 2 := by
  rw [toJson, member, Json.depth, Json.depthOfMembers, Json.depthOfMembers, Json.depth]
  rfl

theorem fitsIn_compose :
    (compose ps).FitsIn room ↔ 2 ≤ room ∧ ∀ p ∈ ps, p.FitsIn (room - 2) := by
  have hitems : Json.depthOfItems (listToJson ps) ≤ room - 2 ↔
      ∀ p ∈ ps, p.toJson.depth ≤ room - 2 := by
    rw [Json.depthOfItems_le_iff, listToJson_eq, List.forall_mem_map]
  constructor
  · intro h
    have hnesting := h.nesting
    rw [depth_compose] at hnesting
    refine ⟨by omega, fun p hp => ⟨hitems.1 (by omega) p hp, fun n hn => ?_⟩⟩
    exact h.sizes n (mem_leaves_of_mem hp hn)
  · rintro ⟨hroom, hps⟩
    have hdepth := hitems.2 fun p hp => (hps p hp).nesting
    refine ⟨?_, fun n hn => ?_⟩
    · rw [depth_compose]
      omega
    · rw [leaves] at hn
      obtain ⟨p, hp, hmem⟩ := mem_leavesOf.1 hn
      exact (hps p hp).sizes n hmem

theorem fitsIn_max {n : Nat} : (max n).FitsIn room ↔ 1 ≤ room ∧ n < UInt64.size := by
  constructor
  · intro h
    exact ⟨h.nesting, h.sizes n (List.mem_singleton_self _)⟩
  · rintro ⟨hroom, hn⟩
    refine ⟨hroom, fun m hm => ?_⟩
    cases List.mem_singleton.1 hm
    exact hn

theorem fitsIn_of_isNamed (h : p.IsNamed) : p.FitsIn room := by
  obtain ⟨name, hmem⟩ := h
  simp only [names, List.mem_cons, Prod.mk.injEq, List.not_mem_nil, or_false] at hmem
  rcases hmem with ⟨-, rfl⟩ | ⟨-, rfl⟩ | ⟨-, rfl⟩ | ⟨-, rfl⟩ | ⟨-, rfl⟩ | ⟨-, rfl⟩ | ⟨-, rfl⟩ |
    ⟨-, rfl⟩ | ⟨-, rfl⟩ | ⟨-, rfl⟩
  all_goals
    exact ⟨Nat.zero_le _, fun n hn => by cases List.mem_singleton.1 hn⟩

/-- What the reader of values accepts: names, sizes of a word, and compositions of
what it accepts within two brackets less. -/
theorem ofJsonWithin_cases (h : ofJsonWithin room j = some p) :
    p.IsNamed ∨ (∃ n, p = max n ∧ 1 ≤ room ∧ n < UInt64.size) ∨
      ∃ xs ps, p = compose ps ∧ 2 ≤ room ∧ listOfJsonWithin (room - 2) xs = some ps := by
  have named : ∀ name, names.lookup name = some p → p.IsNamed := by
    intro name hname
    obtain ⟨before, behind, hsplit, -⟩ := List.lookup_eq_some_iff.1 hname
    exact ⟨name, hsplit ▸ List.mem_append_right _ List.mem_cons_self⟩
  unfold ofJsonWithin at h
  split at h
  · exact .inl (named _ h)
  · split at h
    · exact .inl (named _ h)
    · cases h
  · split at h
    · rename_i hroom
      obtain ⟨n, hn, rfl⟩ := Option.map_eq_some_iff.1 h
      exact .inr (.inl ⟨n, rfl, hroom.1, Numeral.lt_of_toWord? hn⟩)
    · cases h
  · split at h
    · rename_i hroom
      obtain ⟨ps, hps, rfl⟩ := Option.map_eq_some_iff.1 h
      exact .inr (.inr ⟨_, ps, rfl, hroom.1, hps⟩)
    · cases h
  · cases h

theorem ofJsonWithin_toJson (h : p.FitsIn room) : ofJsonWithin room p.toJson = some p := by
  induction p using induct generalizing room with
  | leaf p hp =>
    cases p with
    | compose ps => exact absurd rfl (hp ps)
    | max n =>
      obtain ⟨hroom, hn⟩ := fitsIn_max.1 h
      rw [toJson, member, ofJsonWithin, if_pos ⟨hroom, rfl⟩, Numeral.toWord?_ofNat, if_pos hn,
        Option.map_some]
    | _ => rfl
  | composed ps ih =>
    obtain ⟨hroom, hps⟩ := fitsIn_compose.1 h
    have hitems := listOfJsonWithin_listToJson fun p hp => ih p hp (hps p hp)
    rw [toJson, member, ofJsonWithin, if_pos ⟨hroom, rfl⟩, hitems, Option.map_some]

theorem fitsIn_of_ofJsonWithin (h : ofJsonWithin room j = some p) : p.FitsIn room := by
  induction p using induct generalizing room j with
  | leaf p hp =>
    rcases ofJsonWithin_cases h with hnamed | ⟨n, rfl, hroom, hn⟩ | ⟨_, ps, rfl, -⟩
    · exact fitsIn_of_isNamed hnamed
    · exact fitsIn_max.2 ⟨hroom, hn⟩
    · exact absurd rfl (hp ps)
  | composed ps ih =>
    rcases ofJsonWithin_cases h with hnamed | ⟨_, hmax, -⟩ | ⟨xs, qs, hqs, hroom, hxs⟩
    · exact fitsIn_of_isNamed hnamed
    · cases hmax
    · cases hqs
      refine fitsIn_compose.2 ⟨hroom, fun p hp => ?_⟩
      obtain ⟨x, -, hx⟩ := mem_of_listOfJsonWithin hxs hp
      exact ih p hp hx

/-! ## Texts -/

theorem isWritten_member {name : Text} {value : Json} (h : value.IsWritten) :
    (member name value).IsWritten := by
  apply Json.IsWritten.object
  intro m hm
  cases List.mem_singleton.1 hm
  exact h

theorem isWritten_toJson (p : Policy) : p.toJson.IsWritten := by
  induction p using induct with
  | leaf p hp =>
    cases p with
    | compose ps => exact absurd rfl (hp ps)
    | max n => exact isWritten_member (.number (Numeral.isWritten_ofNat n))
    | _ => exact .string _
  | composed ps ih =>
    rw [toJson, listToJson_eq]
    apply isWritten_member
    apply Json.IsWritten.array
    intro x hx
    obtain ⟨p, hp, rfl⟩ := List.mem_map.1 hx
    exact ih p hp

theorem read_write_eq (p : Policy) : read (write p) = ofJson p.toJson := by
  rw [read, write, Json.parse_render (isWritten_toJson p), Option.bind_some]

theorem fitsIn_of_read {s : Text} (h : read s = some p) : p.FitsIn maxOpenBrackets := by
  obtain ⟨j, -, hj⟩ := Option.bind_eq_some_iff.1 h
  exact fitsIn_of_ofJsonWithin hj

theorem read_write_of_fitsIn (h : p.FitsIn maxOpenBrackets) : read (write p) = some p := by
  rw [read_write_eq]
  exact ofJsonWithin_toJson h

/-- **Policies read back from their texts**, if these keep to the bounds of the
reader, and only then; every policy that some text stands for does. -/
theorem policy_reads_back (p : Policy) :
    (read (write p) = some p ↔ p.FitsIn maxOpenBrackets) ∧
      ∀ s, read s = some p → read (write p) = some p := by
  refine ⟨⟨fitsIn_of_read, read_write_of_fitsIn⟩, ?_⟩
  intro s hs
  exact read_write_of_fitsIn (fitsIn_of_read hs)

/-- A text with blanks stands for a policy, whose own text has none. -/
theorem policy_reads_back_spaced :
    read "\x7b \"compose\": [\"shuffle\", \x7b\"max\": 2\x7d] \x7d".toList =
        some (compose [shuffle, max 2]) ∧
      read (write (compose [shuffle, max 2])) = some (compose [shuffle, max 2]) := by
  have hread : read "\x7b \"compose\": [\"shuffle\", \x7b\"max\": 2\x7d] \x7d".toList =
      some (compose [shuffle, max 2]) := by decide +kernel
  exact ⟨hread, (policy_reads_back _).2 _ hread⟩

end Policy
end NetDial
