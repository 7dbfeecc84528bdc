import Mathlib.Data.List.Infix
import NetDial.Error.Chain

/-!
# Walking the layers of an error

An error is built from a root cause by wrapping it, again and again: in a context
whose note is given or made on the spot, or in a layer that erases its type. What
a walk yields is said by asking it for the next layer until there is none
(`Chain.Yields`); it is compared with the wrappings that were made, and with what
counts, collects and searches the layers, which walks too.

**Results.**
* `yields_iff`: a walk yields the layers that are still to come, and no others.
* `length_eq`, `toList_after`: at each point of a walk the count is that of the
  layers still to come.
* `has_iff`: some layer has a kind, although only the layers' contents are asked
  too.
* `walk_of_wrapped`: all of this in terms of the wrappings.
-/
namespace NetDial

/-! ## Wrapping -/

/-- A way to wrap an error. -/
inductive Wrapping where
  | context (note : Text)
  | lazyContext (note : Unit → Text)
  | erased

namespace Wrapping

/-- The error in one more layer. -/
def around : Wrapping → Error → Error
  | context note, e => .context note e
  | lazyContext note, e => .context (note ()) e
  | erased, e => .erased e

/-- The note of a context. -/
def note? : Wrapping → Option Text
  | context note => some note
  | lazyContext note => some (note ())
  | erased => none

end Wrapping

namespace Error

/-- The error in layers, the first one outermost. -/
def wrapped (ws : List Wrapping) (e : Error) : Error :=
  ws.foldr Wrapping.around e

theorem wrapped_cons (w : Wrapping) (ws : List Wrapping) (e : Error) :
    e.wrapped (w :: ws) = w.around (e.wrapped ws) :=
  rfl

theorem text_around (w : Wrapping) (e : Error) :
    (w.around e).text = (w.note?.elim [] (· ++ ": ".toList)) ++ e.text := by
  cases w <;> rfl

theorem text_wrapped (ws : List Wrapping) (e : Error) :
    (e.wrapped ws).text = ((ws.filterMap Wrapping.note?).flatMap (· ++ ": ".toList)) ++ e.text := by
  induction ws with
  | nil => rfl
  | cons w ws ih =>
    rw [wrapped_cons, text_around, ih, List.filterMap_cons]
    cases w.note? with
    | none => rfl
    | some note => simp

theorem source?_around (w : Wrapping) (e : Error) : (w.around e).source? = some e := by
  cases w <;> rfl

end Error

/-! ## Walks -/

namespace Chain

variable {c rest : Chain} {e : Error} {es : List Error}

theorem next?_ofError (e : Error) : (ofError e).next? = some (e, ⟨e.source?⟩) :=
  rfl

theorem toList_of_next? (h : c.next? = some (e, rest)) : c.toList = e :: rest.toList := by
  rw [toList]
  split
  · rename_i hnone
    rw [h] at hnone
    cases hnone
  · rename_i hnext
    rw [h] at hnext
    cases hnext
    rfl

theorem toList_of_done (h : c.next? = none) : c.toList = [] := by
  rw [toList]
  split
  · rfl
  · rename_i hnext
    rw [h] at hnext
    cases hnext

/-- What a walk yields: the next layer, again and again, until there is none. -/
inductive Yields : Chain → List Error → Prop where
  | done {c : Chain} (h : c.next? = none) : Yields c []
  | next {c rest : Chain} {e : Error} {es : List Error} (h : c.next? = some (e, rest))
      (hrest : Yields rest es) : Yields c (e :: es)

/-- The walk after the next layer was asked for. At its end it stays there. -/
def advance (c : Chain) : Chain :=
  c.next?.elim c Prod.snd

/-- The walk after the next layer was asked for `n` times. -/
def after (c : Chain) : Nat → Chain
  | 0 => c
  | n + 1 => c.advance.after n

theorem yields_toList (c : Chain) : c.Yields c.toList := by
  fun_induction toList c with
  | case1 c hnone => exact .done hnone
  | case2 c e rest hnext ih => exact .next hnext ih

theorem Yields.unique {es' : List Error} (h : c.Yields es) (h' : c.Yields es') : es = es' := by
  induction h generalizing es' with
  | done hnone =>
    cases h' with
    | done _ => rfl
    | next hnext _ =>
      rw [hnone] at hnext
      cases hnext
  | next hnext _ ih =>
    cases h' with
    | done hnone =>
      rw [hnone] at hnext
      cases hnext
    | next hnext' hrest' =>
      rw [hnext] at hnext'
      cases hnext'
      rw [ih hrest']

theorem yields_iff : c.Yields es ↔ es = c.toList :=
  ⟨fun h => h.unique c.yields_toList, fun h => h ▸ c.yields_toList⟩

theorem length_eq (c : Chain) : c.length = c.toList.length := by
  fun_induction length c with
  | case1 c hnone => rw [toList_of_done hnone, List.length_nil]
  | case2 c e rest hnext ih => rw [toList_of_next? hnext, List.length_cons, ih]

theorem toList_advance (c : Chain) : c.advance.toList = c.toList.tail := by
  unfold advance
  cases hnext : c.next? with
  | none => rw [Option.elim_none, toList_of_done hnext, List.tail_nil]
  | some p =>
    obtain ⟨e, rest⟩ := p
    rw [Option.elim_some, toList_of_next? hnext, List.tail_cons]

theorem toList_after (c : Chain) (n : Nat) : (c.after n).toList = c.toList.drop n := by
  induction n generalizing c with
  | zero => rfl
  | succ n ih => rw [after, ih, toList_advance, List.drop_tail]

end Chain

/-! ## Layers -/

namespace Error

variable {e l inner : Error} {k : ErrorKind}

/-- What holds of an error without source, and holds of an error if it does of its
source, holds of every error. -/
@[elab_as_elim]
theorem source_induction {P : Error → Prop} (deepest : ∀ e, e.source? = none → P e)
    (layer : ∀ e inner, e.source? = some inner → P inner → P e) (e : Error) : P e := by
  fun_induction rootCause e with
  | case1 e h => exact deepest e h
  | case2 e inner h ih => exact layer e inner h ih

theorem layers_of_source? (h : e.source? = some inner) : e.layers = e :: inner.layers := by
  have hnext : (Chain.ofError e).next? = some (e, Chain.ofError inner) := by
    rw [Chain.next?_ofError, h]
    rfl
  exact Chain.toList_of_next? hnext

theorem layers_of_deepest (h : e.source? = none) : e.layers = [e] := by
  have hnext : (Chain.ofError e).next? = some (e, ⟨none⟩) := by
    rw [Chain.next?_ofError, h]
  rw [layers, Chain.toList_of_next? hnext, Chain.toList_of_done rfl]

theorem layers_eq (e : Error) : e.layers = e :: e.source?.elim [] layers := by
  cases h : e.source? with
  | none => exact layers_of_deepest h
  | some inner => exact layers_of_source? h

theorem rootCause_of_source? (h : e.source? = some inner) : e.rootCause = inner.rootCause := by
  rw [rootCause]
  split
  · rename_i hnone
    rw [h] at hnone
    cases hnone
  · rename_i hnext
    rw [h] at hnext
    cases hnext
    rfl

theorem rootCause_root (c : Cause) : (root c).rootCause = c := by
  rw [rootCause]
  rfl

theorem eq_root_of_source? (h : e.source? = none) : e = root e.rootCause := by
  cases e with
  | root c => rw [rootCause_root]
  | context note e => cases h
  | erased e => cases h

theorem getLast?_layers (e : Error) : e.layers.getLast? = some (root e.rootCause) := by
  induction e using source_induction with
  | deepest e h =>
    rw [layers_of_deepest h, ← eq_root_of_source? h]
    rfl
  | layer e inner h ih =>
    rw [layers_of_source? h, List.getLast?_cons, ih, rootCause_of_source? h]
    rfl

theorem mem_layers_self (e : Error) : e ∈ e.layers := by
  rw [layers_eq]
  exact List.mem_cons_self

/-- With a layer, its source is among the layers. -/
theorem mem_layers_of_source? (hl : l ∈ e.layers) (h : l.source? = some inner) :
    inner ∈ e.layers := by
  induction e using source_induction with
  | deepest e hnone =>
    rw [layers_eq, hnone] at hl
    obtain rfl := List.mem_singleton.1 hl
    rw [hnone] at h
    cases h
  | layer e next hnext ih =>
    rw [layers_eq, hnext] at hl ⊢
    rcases List.mem_cons.1 hl with rfl | hl
    · rw [hnext] at h
      cases h
      exact List.mem_cons_of_mem _ (mem_layers_self _)
    · exact List.mem_cons_of_mem _ (ih hl)

theorem source?_of_erasedContent? (h : l.erasedContent? = some inner) :
    l.source? = some inner := by
  cases l with
  | root c => cases h
  | context note e => cases h
  | erased e => exact h

/-- The content of a layer that erases types is a layer itself, so it is found
without being asked for. -/
theorem has_iff : e.has k = true ↔ ∃ l ∈ e.layers, l.kind = k := by
  simp only [has, List.any_eq_true, Bool.or_eq_true, beq_iff_eq, Option.any_eq_true]
  constructor
  · rintro ⟨l, hl, hkind | ⟨inner, hinner, hkind⟩⟩
    · exact ⟨l, hl, hkind⟩
    · exact ⟨inner, mem_layers_of_source? hl (source?_of_erasedContent? hinner), hkind⟩
  · rintro ⟨l, hl, hkind⟩
    exact ⟨l, hl, .inl hkind⟩

/-! ## The layers of wrappings -/

theorem layers_around (w : Wrapping) (e : Error) : (w.around e).layers = w.around e :: e.layers :=
  layers_of_source? (source?_around w e)

theorem rootCause_around (w : Wrapping) (e : Error) : (w.around e).rootCause = e.rootCause :=
  rootCause_of_source? (source?_around w e)

theorem layers_wrapped (ws : List Wrapping) (c : Cause) :
    ((root c).wrapped ws).layers = ws.tails.map (root c).wrapped := by
  induction ws with
  | nil => exact layers_of_deepest rfl
  | cons w ws ih => rw [wrapped_cons, layers_around, ih, List.tails_cons, List.map_cons, wrapped_cons]

theorem rootCause_wrapped (ws : List Wrapping) (e : Error) :
    (e.wrapped ws).rootCause = e.rootCause := by
  induction ws with
  | nil => rfl
  | cons w ws ih => rw [wrapped_cons, rootCause_around, ih]

end Error

/-- **Walking a wrapped error.** A walk yields the error, then what is left of it
when one wrapping after another is taken off, from outside in, and last its root,
which is the root cause. At each point of the walk its length and its bounds are
the number of layers still to come. The message is made of the notes from outside
in, each before a colon, and the message of the root. An error has a kind exactly
if one of its layers has. -/
theorem Error.walk_of_wrapped (ws : List Wrapping) (cause : Cause) :
    let e := (root cause).wrapped ws
    let layers := ws.tails.map (root cause).wrapped
    (∀ es, (Chain.ofError e).Yields es ↔ es = layers) ∧
    (layers.getLast? = some (root e.rootCause) ∧ e.rootCause = cause ∧
      (root cause).source? = none) ∧
    (∀ n,
      let c := (Chain.ofError e).after n
      let rest := layers.drop n
      (∀ es, c.Yields es ↔ es = rest) ∧
        c.length = rest.length ∧ c.sizeHint = (rest.length, some rest.length)) ∧
    e.text = ((ws.filterMap Wrapping.note?).flatMap (· ++ ": ".toList)) ++ cause.text ∧
    ∀ k, e.has k = true ↔ ∃ l ∈ layers, l.kind = k := by
  intro e layers
  have hlayers : e.layers = layers := layers_wrapped ws cause
  have hcause : e.rootCause = cause :=
    (rootCause_wrapped ws (root cause)).trans (rootCause_root cause)
  have hrest : ∀ n, ((Chain.ofError e).after n).toList = layers.drop n := fun n => by
    rw [Chain.toList_after, ← hlayers]
    rfl
  refine ⟨fun es => ?_, ⟨?_, hcause, rfl⟩, fun n => ?_,
    text_wrapped ws (root cause), fun k => ?_⟩
  · rw [Chain.yields_iff, ← hlayers]
    rfl
  · rw [← hlayers]
    exact e.getLast?_layers
  · have hlength : ((Chain.ofError e).after n).length = (layers.drop n).length := by
      rw [Chain.length_eq, hrest]
    refine ⟨fun es => ?_, hlength, ?_⟩
    · rw [Chain.yields_iff, hrest]
    · rw [Chain.sizeHint, hlength]
  · rw [has_iff, hlayers]

end NetDial
