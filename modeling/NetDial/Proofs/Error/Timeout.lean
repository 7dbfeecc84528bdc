import NetDial.Dial.Error
import NetDial.Proofs.Error.Walk

/-!
# Timeouts under wrappings

Whether a failed attempt counts as a timeout is looked for in all layers of its
error. Only roots can be timeouts and an error has one root, so no wrapping hides
a timeout or makes one. A failed resolution keeps the kind that it was given, and
its error is not searched.

**Results.**
* `root_mem_layers_iff`: the root cause is the one root among the layers.
* `isTimeout_eq`: an error is a timeout exactly if its root cause is.
* `kind_of_wrapped`: the kinds of dials that fail with wrapped errors.
-/
namespace NetDial

theorem Cause.isTimeout_iff {c : Cause} :
    c.isTimeout = true ↔ c = .timeout ∨ ∃ message, c = .io .timedOut message := by
  constructor
  · intro h
    unfold isTimeout at h
    split at h
    · exact .inl rfl
    · exact .inr ⟨_, rfl⟩
    · cases h
  · rintro (rfl | ⟨message, rfl⟩) <;> rfl

namespace Error

variable {e : Error} {c : Cause}

theorem root_mem_layers_iff : root c ∈ e.layers ↔ c = e.rootCause := by
  induction e using source_induction with
  | deepest e h =>
    rw [layers_of_deepest h, List.mem_singleton, eq_root_of_source? h, rootCause_root, root.injEq]
  | layer e inner h ih =>
    have hne : root c ≠ e := by
      intro hroot
      subst hroot
      cases h
    rw [layers_of_source? h, List.mem_cons, rootCause_of_source? h, ← ih]
    exact or_iff_right hne

theorem isTimeout_iff_layers : e.isTimeout = true ↔ ∃ c, root c ∈ e.layers ∧ c.isTimeout = true := by
  rw [isTimeout, List.any_eq_true]
  constructor
  · rintro ⟨l, hl, h⟩
    split at h
    · exact ⟨_, hl, h⟩
    · cases h
  · rintro ⟨c, hc, h⟩
    exact ⟨root c, hc, h⟩

theorem isTimeout_eq (e : Error) : e.isTimeout = e.rootCause.isTimeout := by
  rw [Bool.eq_iff_iff, isTimeout_iff_layers]
  constructor
  · rintro ⟨c, hc, h⟩
    exact root_mem_layers_iff.1 hc ▸ h
  · exact fun h => ⟨_, root_mem_layers_iff.2 rfl, h⟩

theorem isTimeout_wrapped (ws : List Wrapping) (e : Error) :
    (e.wrapped ws).isTimeout = e.isTimeout := by
  rw [isTimeout_eq, rootCause_wrapped, ← isTimeout_eq]

end Error

namespace DialError

theorem ofConnect_kind_connect (network addr : Text) (e : Error) :
    (ofConnect network addr e).kind = .connect ↔ ¬ e.isTimeout = true := by
  unfold ofConnect
  cases e.isTimeout <;> simp

theorem isTimeout_ofConnect_timeout (network addr : Text) :
    (ofConnect network addr (.root .timeout)).isTimeout = true := by
  have htimeout : (Error.root .timeout).isTimeout = true := by
    rw [Error.isTimeout_eq, Error.rootCause_root]
    rfl
  exact beq_iff_eq.2 ((ofConnect_kind ..).2 htimeout)

/-- **Kinds under wrappings.** A failed attempt is a timeout exactly if the root of
its error is the library's timeout or one of input and output, and a failed
connect in all other cases, whatever wrappings are around the root. More wrappings
never change what a caller learns of a failed attempt. A failed resolution keeps
its kind, whatever error is in the wrappings. -/
theorem kind_of_wrapped (network addr : Text) (ws : List Wrapping) :
    (∀ cause : Cause,
      let failed := ofConnect network addr ((Error.root cause).wrapped ws)
      let timedOut := cause = .timeout ∨ ∃ message, cause = .io .timedOut message
      (failed.kind = .timeout ↔ timedOut) ∧ (failed.kind = .connect ↔ ¬ timedOut)) ∧
    (∀ e : Error,
      let failed := ofConnect network addr e
      let more := ofConnect network addr (e.wrapped ws)
      more.kind = failed.kind ∧ more.isTimeout = failed.isTimeout ∧
        more.isTemporary = failed.isTemporary) ∧
    ∀ (kind : DialErrorKind) (e : Error),
      let failed := ofResolve network ⟨kind, e.wrapped ws⟩
      failed.kind = kind ∧ (failed.isTimeout = true ↔ kind = .timeout) ∧
        (failed.isTemporary = true ↔ kind = .timeout) := by
  refine ⟨fun cause => ?_, fun e => ?_, fun kind e => ?_⟩
  · intro failed timedOut
    have hroot : ((Error.root cause).wrapped ws).isTimeout = true ↔ timedOut := by
      rw [Error.isTimeout_wrapped, Error.isTimeout_eq, Error.rootCause_root]
      exact Cause.isTimeout_iff
    exact ⟨(ofConnect_kind ..).trans hroot, (ofConnect_kind_connect ..).trans (not_congr hroot)⟩
  · intro failed more
    have hkind : more.kind = failed.kind := by
      show (ofConnect network addr (e.wrapped ws)).kind = (ofConnect network addr e).kind
      rw [ofConnect, ofConnect, Error.isTimeout_wrapped]
    have htimeout : more.isTimeout = failed.isTimeout := congrArg (· == .timeout) hkind
    exact ⟨hkind, htimeout, htimeout⟩
  · intro failed
    have htimeout : failed.isTimeout = true ↔ kind = .timeout := beq_iff_eq
    exact ⟨ofResolve_kind network ⟨kind, e.wrapped ws⟩, htimeout, htimeout⟩

end DialError
end NetDial
