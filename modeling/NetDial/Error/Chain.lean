import NetDial.Error.Basic

/-!
# The chain of causes

Every layer of an error has the error beneath it as its source. Walking the
sources from the error down to its root is the chain; `Chain` is the walk at
one of its points. Whatever is asked of all layers is asked on such a walk.

A source is smaller than its error, so every walk comes to an end.
-/
namespace NetDial
namespace Error

/-- The error right beneath the outermost layer. -/
def source? : Error → Option Error
  | root _ => none
  | context _ e => some e
  | erased e => some e

theorem sizeOf_pos (e : Error) : 0 < sizeOf e := by
  cases e with
  | root c =>
    simp only [root.sizeOf_spec]
    omega
  | context note e =>
    simp only [context.sizeOf_spec]
    omega
  | erased e =>
    simp only [erased.sizeOf_spec]
    omega

theorem sizeOf_source? {e inner : Error} (h : e.source? = some inner) : sizeOf inner < sizeOf e := by
  cases e with
  | root c => cases h
  | context note e =>
    cases h
    simp only [context.sizeOf_spec]
    omega
  | erased e =>
    cases h
    simp only [erased.sizeOf_spec]
    omega

/-- The cause that an error without source is. -/
def causeOf : (e : Error) → e.source? = none → Cause
  | root c, _ => c

/-- The root cause: the deepest of the sources. -/
def rootCause (e : Error) : Cause :=
  match h : e.source? with
  | none => e.causeOf h
  | some inner => rootCause inner
termination_by sizeOf e
decreasing_by exact sizeOf_source? h

/-- The content of a layer that erases a type. -/
def erasedContent? : Error → Option Error
  | erased e => some e
  | _ => none

end Error

/-- A walk over the layers of an error, at the layer that comes next. -/
structure Chain where
  next : Option Error
  deriving DecidableEq, Repr

namespace Chain

/-- The walk at the outermost layer. -/
def ofError (e : Error) : Chain :=
  ⟨some e⟩

/-- The next layer and the walk behind it. -/
def next? (c : Chain) : Option (Error × Chain) :=
  c.next.map fun e => (e, ⟨e.source?⟩)

theorem sizeOf_next? {c rest : Chain} {e : Error} (h : c.next? = some (e, rest)) :
    sizeOf rest < sizeOf c := by
  obtain ⟨next⟩ := c
  cases next with
  | none => cases h
  | some e =>
    cases h
    cases hsource : e.source? with
    | none =>
      have hpos := e.sizeOf_pos
      simp only [mk.sizeOf_spec, Option.none.sizeOf_spec, Option.some.sizeOf_spec]
      omega
    | some inner =>
      have hless := Error.sizeOf_source? hsource
      simp only [mk.sizeOf_spec, Option.some.sizeOf_spec]
      omega

/-- How many layers are still to come, counted on the walk. -/
def length (c : Chain) : Nat :=
  match _h : c.next? with
  | none => 0
  | some (_, rest) => rest.length + 1
termination_by sizeOf c
decreasing_by exact sizeOf_next? _h

/-- Bounds on how many layers are still to come. -/
def sizeHint (c : Chain) : Nat × Option Nat :=
  (c.length, some c.length)

/-- The layers still to come. -/
def toList (c : Chain) : List Error :=
  match _h : c.next? with
  | none => []
  | some (e, rest) => e :: rest.toList
termination_by sizeOf c
decreasing_by exact sizeOf_next? _h

end Chain

namespace Error

/-- The layers from outside in, the root last. -/
def layers (e : Error) : List Error :=
  (Chain.ofError e).toList

/-- Some layer has the kind, or erases the type of an error that has it. -/
def has (k : ErrorKind) (e : Error) : Bool :=
  e.layers.any fun l => l.kind == k || l.erasedContent?.any fun c => c.kind == k

/-- Some layer is a timeout. -/
def isTimeout (e : Error) : Bool :=
  e.layers.any fun l =>
    match l with
    | root c => c.isTimeout
    | _ => false

end Error
end NetDial
