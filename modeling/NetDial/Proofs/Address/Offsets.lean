import NetDial.Proofs.Address.HostPort
import NetDial.Proofs.Text.Bytes

/-!
# Splitting by offsets

Host and port of a text are slices of it, so they can be found by comparing
offsets alone: that of the last colon, and in a text that begins with a bracket
that of the first closing bracket. `splitByOffsets?` does so. It fails when it
cuts the text at an offset that is behind its end or inside a character, or looks
at a byte that is not there.

It never does: every offset at which it cuts stands right before or behind an
ASCII character that was found there.

**Results.**
* `splitBracketedAt?_eq`, `splitPlainAt?_eq`: both forms, given the last colon.
* `splitByOffsets?_eq`: splitting by offsets never fails and splits as
  `splitHostPort`.
* `split_exactly_endpoints`: what is split and what is refused.
-/
namespace NetDial

open Text

/-- Refuses a text. -/
def refuse (s : Text) (r : AddrFault) : Except AddrError (Text × Text) :=
  .error ⟨r, s⟩

/-- Looks for an opening bracket behind one offset and for a closing bracket
behind another, and cuts off the port. -/
def cutPortAt? (s host : Text) (opening closing colon : Nat) :
    Option (Except AddrError (Text × Text)) := do
  let inner ← sliceFrom? opening s
  if '[' ∈ inner then return refuse s .unexpectedOpenBracket
  else
    let after ← sliceFrom? closing s
    if ']' ∈ after then return refuse s .unexpectedCloseBracket
    else
      let port ← sliceFrom? (colon + 1) s
      return .ok (host, port)

/-- Splits a text that begins with a bracket, given the offset of its last
colon. -/
def splitBracketedAt? (s : Text) (colon : Nat) : Option (Except AddrError (Text × Text)) :=
  match offsetOfFirst? ']' s with
  | none => some (refuse s .missingCloseBracket)
  | some stop =>
    if stop + 1 = byteLength s then some (refuse s .missingPort)
    else if stop + 1 ≠ colon then do
      let next ← byteAt? s (stop + 1)
      return refuse s (if next = asciiByte ':' then .tooManyColons else .missingPort)
    else do
      let host ← slice? 1 stop s
      cutPortAt? s host 1 (stop + 1) colon

/-- Splits a text that does not, given the offset of its last colon. -/
def splitPlainAt? (s : Text) (colon : Nat) : Option (Except AddrError (Text × Text)) := do
  let host ← slice? 0 colon s
  if ':' ∈ host then return refuse s .tooManyColons
  else cutPortAt? s host 0 0 colon

/-- Splits a text by offsets. -/
def splitByOffsets? (s : Text) : Option (Except AddrError (Text × Text)) :=
  match offsetOfLast? ':' s with
  | none => some (refuse s .missingPort)
  | some colon =>
    if s.head? = some '[' then splitBracketedAt? s colon else splitPlainAt? s colon

variable {s host port : Text}

/-! ## The slices -/

theorem splitHostPort_of_no_colon (h : ':' ∉ s) : splitHostPort s = refuse s .missingPort := by
  unfold splitHostPort splitHostPortFault
  rw [splitLast?_eq_none_iff.2 h]
  rfl

theorem cutPortAt?_of_slices {inner after : Text} {opening closing colon : Nat}
    (hinner : sliceFrom? opening s = some inner) (hafter : sliceFrom? closing s = some after)
    (hport : sliceFrom? (colon + 1) s = some port) (host : Text) :
    cutPortAt? s host opening closing colon =
      some (if '[' ∈ inner then refuse s .unexpectedOpenBracket
        else if ']' ∈ after then refuse s .unexpectedCloseBracket
        else .ok (host, port)) := by
  unfold cutPortAt?
  rw [hinner, hafter, hport]
  simp only [Option.bind_eq_bind, Option.bind_some]
  split
  · rfl
  · split
    · rfl
    · rfl

/-- The port stands behind the last colon. -/
theorem sliceFrom?_colon (before port : Text) :
    sliceFrom? (byteLength before + 1) (before ++ ':' :: port) = some port := by
  have hcolon : byteLength (before ++ [':']) = byteLength before + 1 := byteLength_append _ _
  have htext : before ++ ':' :: port = before ++ [':'] ++ port := by simp
  rw [htext, ← hcolon]
  exact sliceFrom?_append _ _

/-- What stands in front of the port ends where the last colon is, if it is as
long as what stands in front of this. -/
theorem byteLength_eq_iff {front after before port : Text}
    (h : front ++ after = before ++ ':' :: port) :
    byteLength front = byteLength before ↔ after = ':' :: port := by
  constructor
  · intro hlen
    exact (eq_of_byteLength h hlen).2
  · intro hafter
    rw [hafter] at h
    rw [List.append_cancel_right h]

/-! ## Both forms -/

/-- Without a leading bracket the text is cut at its last colon only. -/
theorem splitPlainAt?_eq (before port : Text) :
    splitPlainAt? (before ++ ':' :: port) (byteLength before) =
      some ((splitPlain before port).mapError fun r => ⟨r, before ++ ':' :: port⟩) := by
  have hhost : slice? 0 (byteLength before) (before ++ ':' :: port) = some before := by
    have h := slice?_append [] before (':' :: port)
    simpa [byteLength] using h
  have hopen : '[' ∈ before ++ ':' :: port ↔ '[' ∈ before ∨ '[' ∈ port := by simp
  have hclose : ']' ∈ before ++ ':' :: port ↔ ']' ∈ before ∨ ']' ∈ port := by simp
  unfold splitPlainAt? splitPlain
  rw [hhost, Option.bind_eq_bind, Option.bind_some,
    cutPortAt?_of_slices (sliceFrom?_zero _) (sliceFrom?_zero _) (sliceFrom?_colon _ _)]
  simp only [hopen, hclose]
  split
  · rfl
  · split
    · rfl
    · split
      · rfl
      · rfl

/-! ### A leading bracket -/

theorem offsetOfFirst?_closing (h : ']' ∉ host) (after : Text) :
    offsetOfFirst? ']' ('[' :: (host ++ ']' :: after)) = some (1 + byteLength host) := by
  have hcut : splitFirst? ']' ('[' :: (host ++ ']' :: after)) = some ('[' :: host, after) :=
    splitFirst?_eq_some_iff.2 ⟨rfl, by simpa using h⟩
  rw [offsetOfFirst?_eq, hcut]
  rfl

theorem through_closing (host after : Text) :
    '[' :: (host ++ ']' :: after) = '[' :: (host ++ [']']) ++ after := by
  simp

theorem byteLength_through_closing (host : Text) :
    byteLength ('[' :: (host ++ [']'])) = 1 + byteLength host + 1 :=
  byteLength_append ('[' :: host) [']']

theorem splitBracketedAt?_of_unclosed {inner : Text} (h : ']' ∉ inner) (colon : Nat) :
    splitBracketedAt? ('[' :: inner) colon = some (refuse ('[' :: inner) .missingCloseBracket) := by
  have hno : ']' ∉ '[' :: inner := by simpa using h
  have hnone : offsetOfFirst? ']' ('[' :: inner) = none := by
    rw [offsetOfFirst?_eq, splitFirst?_eq_none_iff.2 hno]
    rfl
  simp only [splitBracketedAt?, hnone]

theorem splitBracketedAt?_of_nil (h : ']' ∉ host) (colon : Nat) :
    splitBracketedAt? ('[' :: (host ++ [']'])) colon =
      some (refuse ('[' :: (host ++ [']'])) .missingPort) := by
  simp only [splitBracketedAt?, offsetOfFirst?_closing h]
  rw [if_pos (byteLength_through_closing host).symm]

/-- Something stands behind the closing bracket, so that the text does not end
there. -/
theorem closing_ne_end (host after : Text) (c : Char) :
    1 + byteLength host + 1 ≠ byteLength ('[' :: (host ++ ']' :: c :: after)) := by
  have := c.utf8Size_pos
  rw [through_closing, byteLength_append, byteLength_through_closing, byteLength]
  omega

/-- The byte behind the closing bracket is there, and tells a colon. -/
theorem splitBracketedAt?_of_ne (h : ']' ∉ host) {colon : Nat}
    (hcolon : 1 + byteLength host + 1 ≠ colon) (c : Char) (after : Text) :
    splitBracketedAt? ('[' :: (host ++ ']' :: c :: after)) colon =
      some (refuse ('[' :: (host ++ ']' :: c :: after))
        (if c = ':' then .tooManyColons else .missingPort)) := by
  obtain ⟨b, hbyte, hb⟩ := byteAt?_append (d := ':') (by decide) ('[' :: (host ++ [']'])) after c
  rw [← through_closing, byteLength_through_closing] at hbyte
  simp only [splitBracketedAt?, offsetOfFirst?_closing h]
  rw [if_neg (closing_ne_end host after c), if_pos hcolon, hbyte]
  simp only [Option.bind_eq_bind, Option.bind_some, hb]
  rfl

theorem splitBracketedAt?_of_eq (h : ']' ∉ host) (port : Text) :
    splitBracketedAt? ('[' :: (host ++ ']' :: ':' :: port)) (1 + byteLength host + 1) =
      some (if '[' ∈ host ++ ']' :: ':' :: port then
          refuse ('[' :: (host ++ ']' :: ':' :: port)) .unexpectedOpenBracket
        else if ']' ∈ ':' :: port then
          refuse ('[' :: (host ++ ']' :: ':' :: port)) .unexpectedCloseBracket
        else .ok (host, port)) := by
  have hhost : slice? 1 (1 + byteLength host) ('[' :: (host ++ ']' :: ':' :: port)) = some host :=
    slice?_append ['['] host (']' :: ':' :: port)
  have hinner : sliceFrom? 1 ('[' :: (host ++ ']' :: ':' :: port)) =
      some (host ++ ']' :: ':' :: port) := sliceFrom?_append ['['] _
  have hafter := sliceFrom?_append ('[' :: (host ++ [']'])) (':' :: port)
  have hport := sliceFrom?_colon ('[' :: (host ++ [']'])) port
  rw [← through_closing, byteLength_through_closing] at hafter hport
  simp only [splitBracketedAt?, offsetOfFirst?_closing h]
  rw [if_neg (closing_ne_end host port ':'), if_neg (not_not_intro rfl), hhost,
    Option.bind_eq_bind, Option.bind_some, cutPortAt?_of_slices hinner hafter hport]

/-- With a leading bracket the text is cut behind it and around the first closing
one, if what follows is the last colon. -/
theorem splitBracketedAt?_eq {inner before port : Text}
    (hs : '[' :: inner = before ++ ':' :: port) :
    splitBracketedAt? ('[' :: inner) (byteLength before) =
      some ((splitBracketed inner port).mapError fun r => ⟨r, '[' :: inner⟩) := by
  unfold splitBracketed
  split
  · rename_i hcut
    exact splitBracketedAt?_of_unclosed (splitFirst?_eq_none_iff.1 hcut) _
  · rename_i host hcut
    obtain ⟨rfl, hclosing⟩ := splitFirst?_eq_some_iff.1 hcut
    exact splitBracketedAt?_of_nil hclosing _
  · rename_i host c after hcut
    obtain ⟨rfl, hclosing⟩ := splitFirst?_eq_some_iff.1 hcut
    have hcolon : 1 + byteLength host + 1 = byteLength before ↔ c :: after = ':' :: port := by
      rw [← byteLength_through_closing]
      exact byteLength_eq_iff (through_closing host _ ▸ hs)
    by_cases hnext : c :: after = ':' :: port
    · rw [if_neg (not_not_intro hnext), ← hcolon.2 hnext]
      obtain ⟨rfl, rfl⟩ := List.cons.inj hnext
      rw [splitBracketedAt?_of_eq hclosing]
      simp only [List.mem_cons, Char.reduceEq, false_or]
      split
      · rfl
      · split
        · rfl
        · rfl
    · rw [if_pos hnext, splitBracketedAt?_of_ne hclosing (fun h => hnext (hcolon.1 h))]
      rfl

/-! ## All texts -/

/-- Splitting by offsets never fails. -/
theorem splitByOffsets?_eq (s : Text) : splitByOffsets? s = some (splitHostPort s) := by
  unfold splitHostPort splitHostPortFault
  split
  · rename_i hcut
    simp only [splitByOffsets?, offsetOfLast?_eq, hcut, Option.map_none]
    rfl
  · rename_i before port inner hcut
    have hs := (splitLast?_eq_some_iff.1 hcut).1
    simp only [splitByOffsets?, offsetOfLast?_eq, hcut, Option.map_some, List.head?_cons, if_true]
    exact splitBracketedAt?_eq hs
  · rename_i before port hopen hcut
    obtain ⟨rfl, -⟩ := splitLast?_eq_some_iff.1 hcut
    have hhead : List.head? (before ++ ':' :: port) ≠ some '[' := by
      intro h
      obtain ⟨inner, hinner⟩ := List.head?_eq_some_iff.1 h
      exact hopen inner hinner
    simp only [splitByOffsets?, offsetOfLast?_eq, hcut, Option.map_some, hhead, if_false]
    exact splitPlainAt?_eq before port

/-- **Splitting.** A text is split exactly into the parts that it is an endpoint
of. Every other text is refused with itself as the address in the error, and one
without a colon because the port is missing. No cut and no look-up is outside the
text or inside a character. -/
theorem split_exactly_endpoints (s : Text) :
    (∀ host port, splitHostPort s = .ok (host, port) ↔ IsEndpoint s host port) ∧
    ((∃ reason, splitHostPort s = .error ⟨reason, s⟩) ↔ ¬ ∃ host port, IsEndpoint s host port) ∧
    (':' ∉ s → splitHostPort s = .error ⟨.missingPort, s⟩) ∧
    splitByOffsets? s = some (splitHostPort s) := by
  refine ⟨fun host port => splitHostPort_eq_ok_iff, ?_, splitHostPort_of_no_colon,
    splitByOffsets?_eq s⟩
  constructor
  · rintro ⟨reason, herror⟩ ⟨host, port, hend⟩
    rw [splitHostPort_of_isEndpoint hend] at herror
    cases herror
  · intro hno
    cases hfault : splitHostPortFault s with
    | error reason => exact ⟨reason, by rw [splitHostPort, hfault]; rfl⟩
    | ok parts =>
      have hok : splitHostPort s = .ok parts := by rw [splitHostPort, hfault]; rfl
      exact absurd ⟨parts.1, parts.2, isEndpoint_of_splitHostPort hok⟩ hno

/-- A host of two bytes a character has no colon, and the address in its error is
the text itself. -/
theorem split_exactly_endpoints_portless :
    ':' ∉ "[äö]".toList ∧ splitHostPort "[äö]".toList = .error ⟨.missingPort, "[äö]".toList⟩ := by
  have hno : ':' ∉ "[äö]".toList := by decide
  exact ⟨hno, (split_exactly_endpoints "[äö]".toList).2.2.1 hno⟩

-- The colon in the brackets is not the last one, and both cuts stand behind `ö`.
example : splitByOffsets? "[ä:ö]:80".toList = some (.ok ("ä:ö".toList, "80".toList)) := rfl

end NetDial
