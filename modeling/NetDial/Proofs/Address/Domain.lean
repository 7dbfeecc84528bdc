import NetDial.Address.Domain
import NetDial.Proofs.Text.Bytes

/-!
# The grammar of domain names

Which texts are domain names, said without a scan: labels with dots between them,
with one more dot behind them or without.

The scan goes through a text from left to right. What it remembers of a label is
its length and its last character, so it can be followed label by label: at the
beginning of a label its state is that before the text, but for whether a letter
was seen. It runs on the bytes of a text as it does on the characters, because it
refuses the first byte of whatever is not ASCII.

**Results.**
* `IsName.chars`: which characters a name has.
* `foldlM_label`: what the scan does within a label.
* `accepts_last`, `accepts_dot`: what it does up to the end of a label.
* `accepts_iff`: the texts that it accepts.
* `isDomainName_eq_true_iff_isName`: the names are exactly the texts of the grammar.
* `isDomainNameInBytes_bytes`: the scan may as well run on the bytes.
* `accepts_exactly_names`: both at once.
-/
namespace NetDial

open Text

/-! ## The grammar -/

/-- Letters and underscores, of which a name has at least one. -/
def isNaming (c : Char) : Bool :=
  c.isAlpha || c == '_'

/-- Letters, digits, underscores and hyphens. -/
def isLabelChar (c : Char) : Bool :=
  isNaming c || c.isDigit || c == '-'

/-- A label does not have a hyphen at either end. -/
structure IsNameLabel (s : Text) : Prop where
  nonempty : s ≠ []
  short : s.length ≤ 63
  chars : ∀ c ∈ s, isLabelChar c = true
  head : s.head? ≠ some '-'
  last : s.getLast? ≠ some '-'

/-- One or more labels with single dots between them. -/
inductive IsLabels : Text → Prop where
  | one {s : Text} (h : IsNameLabel s) : IsLabels s
  | more {s t : Text} (h : IsNameLabel s) (ht : IsLabels t) : IsLabels (s ++ '.' :: t)

/-- A domain name. -/
structure IsName (s : Text) : Prop where
  size : 1 ≤ byteLength s ∧ byteLength s ≤ 255
  labels : IsLabels s ∨ ∃ t, s = t ++ ['.'] ∧ IsLabels t
  named : ∃ c ∈ s, isNaming c = true

variable {l rest s : Text} {named : Bool}

theorem isNaming_iff {c : Char} :
    isNaming c = true ↔
      (65 ≤ c.toNat ∧ c.toNat ≤ 90) ∨ (97 ≤ c.toNat ∧ c.toNat ≤ 122) ∨ c.toNat = 95 := by
  have hc : c.toNat = c.val.toNat := rfl
  have hupper : c.isUpper = decide (c.val ≥ 'A'.val ∧ c.val ≤ 'Z'.val) := rfl
  have hlower : c.isLower = (decide (c.val ≥ 'a'.val) && decide (c.val ≤ 'z'.val)) := rfl
  have hletter : c.isAlpha = (c.isUpper || c.isLower) := rfl
  have hunderscore : c = '_' ↔ c.val.toNat = 95 :=
    ⟨fun h => h ▸ rfl, fun h => Char.ext (UInt32.toNat_inj.1 h)⟩
  simp only [isNaming, hletter, hupper, hlower, Bool.or_eq_true, Bool.and_eq_true,
    decide_eq_true_eq, beq_iff_eq, ge_iff_le, UInt32.le_iff_toNat_le, Char.reduceVal,
    UInt32.reduceToNat, hunderscore, hc, or_assoc]

theorem isDigit_iff {c : Char} : c.isDigit = true ↔ 48 ≤ c.toNat ∧ c.toNat ≤ 57 := by
  have hc : c.toNat = c.val.toNat := rfl
  simp only [Char.isDigit, Bool.and_eq_true, decide_eq_true_eq, ge_iff_le, UInt32.le_iff_toNat_le,
    Char.reduceVal, UInt32.reduceToNat, hc]

theorem isDigit_of_isNaming {c : Char} (h : isNaming c = true) : c.isDigit = false := by
  rw [← Bool.not_eq_true, isDigit_iff]
  have := isNaming_iff.1 h
  omega

theorem ascii_of_isLabelChar {c : Char} (h : isLabelChar c = true) : c.toNat < 128 := by
  simp only [isLabelChar, Bool.or_eq_true, isNaming_iff, isDigit_iff, beq_iff_eq] at h
  rcases h with (h | h) | rfl
  · omega
  · omega
  · decide

theorem IsNameLabel.no_dot (h : IsNameLabel s) : '.' ∉ s := by
  intro hdot
  have := h.chars '.' hdot
  revert this; decide

theorem IsLabels.chars (h : IsLabels s) : ∀ c ∈ s, isLabelChar c = true ∨ c = '.' := by
  induction h with
  | one h => exact fun c hc => .inl (h.chars c hc)
  | more h _ ih =>
    intro c hc
    simp only [List.mem_append, List.mem_cons] at hc
    rcases hc with hc | hc | hc
    · exact .inl (h.chars c hc)
    · exact .inr hc
    · exact ih c hc

theorem IsName.chars (h : IsName s) : ∀ c ∈ s, isLabelChar c = true ∨ c = '.' := by
  rcases h.labels with hlabels | ⟨t, rfl, hlabels⟩
  · exact hlabels.chars
  · intro c hc
    rcases List.mem_append.1 hc with hc | hc
    · exact hlabels.chars c hc
    · exact .inr (List.mem_singleton.1 hc)

/-! ## Labels and dots -/

/-- What may follow a dot: nothing, or labels with a dot behind them or without. -/
def MayFollowDot (s : Text) : Prop :=
  s = [] ∨ IsLabels s ∨ ∃ t, s = t ++ ['.'] ∧ IsLabels t

/-- A text has one first dot. -/
theorem eq_of_first_dot {l' rest' : Text} (h : l ++ '.' :: rest = l' ++ '.' :: rest')
    (hl : '.' ∉ l) (hl' : '.' ∉ l') : l = l' ∧ rest = rest' := by
  have hcut : splitFirst? '.' (l ++ '.' :: rest) = some (l, rest) :=
    splitFirst?_eq_some_iff.2 ⟨rfl, hl⟩
  rw [h, splitFirst?_eq_some_iff.2 ⟨rfl, hl'⟩, Option.some.injEq, Prod.mk.injEq] at hcut
  exact ⟨hcut.1.symm, hcut.2.symm⟩

theorem mayFollowDot_of_no_dot (h : '.' ∉ l) : MayFollowDot l ↔ l = [] ∨ IsNameLabel l := by
  constructor
  · rintro (hnil | hlabels | ⟨t, rfl, -⟩)
    · exact .inl hnil
    · cases hlabels with
      | one hlabel => exact .inr hlabel
      | more _ _ => simp at h
    · simp at h
  · rintro (hnil | hlabel)
    · exact .inl hnil
    · exact .inr (.inl (.one hlabel))

theorem mayFollowDot_dot (h : '.' ∉ l) :
    MayFollowDot (l ++ '.' :: rest) ↔ IsNameLabel l ∧ MayFollowDot rest := by
  constructor
  · rintro (hnil | hlabels | ⟨t, ht, hlabels⟩)
    · simp at hnil
    · generalize htext : l ++ '.' :: rest = s at hlabels
      cases hlabels with
      | one hlabel => exact absurd (htext ▸ by simp) hlabel.no_dot
      | more hlabel hrest =>
        obtain ⟨rfl, rfl⟩ := eq_of_first_dot htext h hlabel.no_dot
        exact ⟨hlabel, .inr (.inl hrest)⟩
    · cases hlabels with
      | one hlabel =>
        obtain ⟨rfl, rfl⟩ := eq_of_first_dot ht h hlabel.no_dot
        exact ⟨hlabel, .inl rfl⟩
      | @more u v hlabel hrest =>
        rw [List.append_assoc, List.cons_append] at ht
        obtain ⟨rfl, rfl⟩ := eq_of_first_dot ht h hlabel.no_dot
        exact ⟨hlabel, .inr (.inr ⟨v, rfl, hrest⟩)⟩
  · rintro ⟨hlabel, rfl | hrest | ⟨t, rfl, hrest⟩⟩
    · exact .inr (.inr ⟨l, rfl, .one hlabel⟩)
    · exact .inr (.inl (.more hlabel hrest))
    · exact .inr (.inr ⟨l ++ '.' :: t, by simp, .more hlabel hrest⟩)

/-! ## The scan of a label -/

namespace NameScan

/-- The scan at the beginning of a label. -/
def fresh (named : Bool) : NameScan :=
  ⟨'.', 0, named⟩

/-- The scan behind a part of a label. -/
def behind (t : NameScan) (l : Text) : NameScan :=
  ⟨l.getLast?.getD t.last, t.label + l.length, t.named || l.any isNaming⟩

/-- The scan accepts what follows. -/
def Accepts (t : NameScan) (s : Text) : Prop :=
  ∃ u, s.foldlM step t = some u ∧ u.isComplete = true

theorem step_of_ne_dot (t : NameScan) {c : Char} (hc : c ≠ '.') :
    t.step c =
      if isLabelChar c = true ∧ ¬ (c = '-' ∧ t.last = '.') then
        some ⟨c, t.label + 1, t.named || isNaming c⟩
      else none := by
  by_cases hn : isNaming c = true
  · have hhyphen : c ≠ '-' := by
      rintro rfl
      revert hn; decide
    have hstep : t.step c = some ⟨c, t.label + 1, true⟩ := if_pos hn
    simp [hstep, isLabelChar, hn, hhyphen]
  · have hstep : t.step c =
        if c.isDigit then some ⟨c, t.label + 1, t.named⟩
        else if c == '-' then
          if t.last == '.' then none else some ⟨c, t.label + 1, t.named⟩
        else none := by
      have hletter : (c.isAlpha || c == '_') = false := by simpa [isNaming] using hn
      simp [step, hletter, hc]
    rw [hstep]
    by_cases hd : c.isDigit = true
    · have hhyphen : c ≠ '-' := by
        rintro rfl
        revert hd; decide
      simp [isLabelChar, hn, hd, hhyphen]
    · by_cases hh : c = '-'
      · subst hh
        by_cases hlast : t.last = '.'
        · simp [isLabelChar, hlast]
        · simp [isLabelChar, hlast, hn]
      · simp [isLabelChar, hn, hd, hh]

theorem step_dot (t : NameScan) :
    t.step '.' =
      if t.last ≠ '.' ∧ t.last ≠ '-' ∧ t.label ≤ 63 ∧ t.label ≠ 0 then some (fresh t.named)
      else none := by
  have hstep : t.step '.' =
      if t.last == '.' || t.last == '-' || maxLabelLength < t.label || t.label == 0 then none
      else some (fresh t.named) := rfl
  have hrefused :
      (t.last == '.' || t.last == '-' || maxLabelLength < t.label || t.label == 0) = true ↔
        ¬ (t.last ≠ '.' ∧ t.last ≠ '-' ∧ t.label ≤ 63 ∧ t.label ≠ 0) := by
    simp only [Bool.or_eq_true, beq_iff_eq, decide_eq_true_eq, maxLabelLength, ← Nat.not_le]
    grind
  rw [hstep]
  simp only [hrefused, ite_not]

theorem behind_cons (t : NameScan) (c : Char) (l : Text) :
    behind ⟨c, t.label + 1, t.named || isNaming c⟩ l = t.behind (c :: l) := by
  simp [behind, List.getLast?_cons, Bool.or_assoc]
  omega

/-- Within a label the scan refuses the characters that are none of a label, and a
hyphen at its beginning. -/
theorem foldlM_label (h : '.' ∉ l) (t : NameScan) :
    l.foldlM step t =
      if l.all isLabelChar = true ∧ ¬ (l.head? = some '-' ∧ t.last = '.') then
        some (t.behind l)
      else none := by
  induction l generalizing t with
  | nil => simp [behind]
  | cons c l ih =>
    simp only [List.mem_cons, not_or] at h
    have hc : c ≠ '.' := Ne.symm h.1
    rw [List.foldlM_cons, step_of_ne_dot t hc]
    by_cases hok : isLabelChar c = true ∧ ¬ (c = '-' ∧ t.last = '.')
    · rw [if_pos hok, Option.bind_eq_bind, Option.bind_some, ih h.2, behind_cons]
      simp [hok, hc]
    · rw [if_neg hok, if_neg]
      · rfl
      · rintro ⟨hall, hhead⟩
        rw [List.all_cons, Bool.and_eq_true] at hall
        exact hok ⟨hall.1, by simpa using hhead⟩

/-! ## The scan of a name -/

theorem foldlM_fresh (h : '.' ∉ l) (named : Bool) :
    l.foldlM step (fresh named) =
      if l.all isLabelChar = true ∧ l.head? ≠ some '-' then some ((fresh named).behind l)
      else none := by
  rw [foldlM_label h]
  simp [fresh]

theorem behind_fresh_last_ne (named : Bool) {c : Char} (hc : c ≠ '.') (l : Text) :
    ((fresh named).behind l).last ≠ c ↔ l.getLast? ≠ some c := by
  cases hlast : l.getLast? with
  | none => simpa [behind, fresh, hlast] using hc.symm
  | some d => simp [behind, hlast]

theorem behind_fresh_label (named : Bool) (l : Text) :
    ((fresh named).behind l).label = l.length :=
  Nat.zero_add _

/-- The last label may be missing. -/
theorem accepts_last (h : '.' ∉ l) :
    (fresh named).Accepts l ↔ (l = [] ∨ IsNameLabel l) ∧ (named || l.any isNaming) = true := by
  have hcomplete : ((fresh named).behind l).isComplete = true ↔
      l.getLast? ≠ some '-' ∧ l.length ≤ 63 ∧ (named || l.any isNaming) = true := by
    rw [← behind_fresh_last_ne named (by decide), ← behind_fresh_label named l]
    simp [isComplete, maxLabelLength, behind, fresh, and_assoc]
  unfold Accepts
  rw [foldlM_fresh h]
  constructor
  · rintro ⟨u, hrun, hu⟩
    split at hrun
    · rename_i hok
      cases hrun
      obtain ⟨hlast, hshort, hnamed⟩ := hcomplete.1 hu
      refine ⟨?_, hnamed⟩
      by_cases hne : l = []
      · exact .inl hne
      · exact .inr ⟨hne, hshort, List.all_eq_true.1 hok.1, hok.2, hlast⟩
    · cases hrun
  · rintro ⟨rfl | hl, hnamed⟩
    · rw [if_pos ⟨by simp, by simp⟩]
      exact ⟨_, rfl, hcomplete.2 ⟨by simp, by simp, hnamed⟩⟩
    · rw [if_pos ⟨List.all_eq_true.2 hl.chars, hl.head⟩]
      exact ⟨_, rfl, hcomplete.2 ⟨hl.last, hl.short, hnamed⟩⟩

/-- A dot ends a label. -/
theorem accepts_dot (h : '.' ∉ l) :
    (fresh named).Accepts (l ++ '.' :: rest) ↔
      IsNameLabel l ∧ (fresh (named || l.any isNaming)).Accepts rest := by
  unfold Accepts
  rw [List.foldlM_append, foldlM_fresh h]
  constructor
  · rintro ⟨u, hrun, hu⟩
    split at hrun
    · rename_i hok
      rw [Option.bind_eq_bind, Option.bind_some, List.foldlM_cons, step_dot] at hrun
      split at hrun
      · rename_i hdot
        rw [behind_fresh_label] at hdot
        obtain ⟨-, hhyphen, hshort, hlength⟩ := hdot
        have hlast := (behind_fresh_last_ne named (by decide) l).1 hhyphen
        have hne : l ≠ [] := fun hnil => hlength (hnil ▸ rfl)
        exact ⟨⟨hne, hshort, List.all_eq_true.1 hok.1, hok.2, hlast⟩, u, hrun, hu⟩
      · cases hrun
    · cases hrun
  · rintro ⟨hl, u, hrun, hu⟩
    have hlength : l.length ≠ 0 := fun hzero => hl.nonempty (List.length_eq_zero_iff.1 hzero)
    have hdot : ((fresh named).behind l).last ≠ '.' := by
      obtain ⟨c, hc⟩ := Option.isSome_iff_exists.1 (List.getLast?_isSome.2 hl.nonempty)
      have hmem : c ∈ l := List.mem_of_getLast? hc
      simp only [behind, hc, Option.getD_some]
      exact fun heq => h (heq ▸ hmem)
    have hhyphen : ((fresh named).behind l).last ≠ '-' :=
      (behind_fresh_last_ne named (by decide) l).2 hl.last
    have hend : ((fresh named).behind l).step '.' = some (fresh (named || l.any isNaming)) := by
      rw [step_dot, behind_fresh_label, if_pos ⟨hdot, hhyphen, hl.short, hlength⟩]
      rfl
    refine ⟨u, ?_, hu⟩
    rw [if_pos ⟨List.all_eq_true.2 hl.chars, hl.head⟩, Option.bind_eq_bind, Option.bind_some,
      List.foldlM_cons, hend]
    exact hrun

/-- The scan accepts what may follow a dot, if there is a letter or underscore in
it or before it. -/
theorem accepts_iff (named : Bool) (s : Text) :
    (fresh named).Accepts s ↔ MayFollowDot s ∧ (named || s.any isNaming) = true := by
  induction hn : s.length using Nat.strongRecOn generalizing s named with
  | ind n ih =>
    cases hcut : splitFirst? '.' s with
    | none =>
      have hdot := splitFirst?_eq_none_iff.1 hcut
      rw [accepts_last hdot, mayFollowDot_of_no_dot hdot]
    | some parts =>
      obtain ⟨l, rest⟩ := parts
      obtain ⟨rfl, hdot⟩ := splitFirst?_eq_some_iff.1 hcut
      have hshort : rest.length < n := by
        rw [← hn, List.length_append, List.length_cons]
        omega
      have hany : (named || (l ++ '.' :: rest).any isNaming) =
          (named || l.any isNaming || rest.any isNaming) := by
        have hnodot : isNaming '.' = false := by decide
        rw [List.any_append, List.any_cons, hnodot, Bool.false_or, Bool.or_assoc]
      rw [accepts_dot hdot, ih rest.length hshort _ _ rfl, mayFollowDot_dot hdot, hany, and_assoc]

end NameScan

/-! ## Names -/

theorem isDomainName_eq_true_iff (s : Text) :
    isDomainName s = true ↔ s ≠ [] ∧ byteLength s ≤ 255 ∧ (NameScan.fresh false).Accepts s := by
  unfold isDomainName NameScan.Accepts
  have hstart : ({} : NameScan) = NameScan.fresh false := rfl
  rw [hstart, Bool.and_eq_true, Bool.and_eq_true, and_assoc, decide_eq_true_eq]
  cases s.foldlM NameScan.step (NameScan.fresh false) with
  | none => simp
  | some t => simp [maxNameLength]

theorem isDomainName_eq_true_iff_isName : isDomainName s = true ↔ IsName s := by
  rw [isDomainName_eq_true_iff, NameScan.accepts_iff, Bool.false_or, List.any_eq_true]
  constructor
  · rintro ⟨hne, hsize, hlabels, hnamed⟩
    have hpos : byteLength s ≠ 0 := fun hzero => hne (byteLength_eq_zero_iff.1 hzero)
    exact ⟨⟨Nat.one_le_iff_ne_zero.2 hpos, hsize⟩, hlabels.resolve_left hne, hnamed⟩
  · intro h
    have hne : s ≠ [] := by
      rintro rfl
      exact Nat.not_succ_le_zero 0 h.size.1
    exact ⟨hne, h.size.2, .inr h.labels, h.named⟩

/-- The scan of a byte, which stands for the character of its number. -/
def NameScan.stepByte (t : NameScan) (b : UInt8) : Option NameScan :=
  t.step (Char.ofNat b.toNat)

/-- These are the bytes of a domain name. -/
def isDomainNameInBytes (bs : List UInt8) : Bool :=
  bs != [] && bs.length ≤ maxNameLength &&
    (bs.foldlM NameScan.stepByte {}).any NameScan.isComplete

theorem NameScan.step_of_not_ascii (t : NameScan) (c : Char) (h : 128 ≤ c.toNat) :
    t.step c = none := by
  have hdot : c ≠ '.' := by
    rintro rfl
    revert h; decide
  rw [step_of_ne_dot t hdot, if_neg]
  intro hok
  have := ascii_of_isLabelChar hok.1
  omega

theorem isDomainNameInBytes_bytes (s : Text) : isDomainNameInBytes (bytes s) = isDomainName s := by
  have hrun : (bytes s).foldlM NameScan.stepByte {} = s.foldlM NameScan.step {} :=
    foldlM_bytes NameScan.step_of_not_ascii _ s
  have hempty : (bytes s != []) = (s != []) := by
    have hnil : bytes s = [] ↔ s = [] := by
      rw [← List.length_eq_zero_iff, length_bytes, byteLength_eq_zero_iff]
    rw [Bool.eq_iff_iff, bne_iff_ne, bne_iff_ne, ne_eq, hnil]
  unfold isDomainNameInBytes isDomainName
  rw [hrun, hempty, length_bytes]
  cases s.foldlM NameScan.step {} with
  | none => rfl
  | some t => rfl

/-- **Domain names.** The scan accepts exactly the texts of the grammar, whether it
runs on their characters or on their bytes. -/
theorem accepts_exactly_names (s : Text) :
    (isDomainName s = true ↔ IsName s) ∧ (isDomainNameInBytes (bytes s) = true ↔ IsName s) := by
  rw [isDomainNameInBytes_bytes]
  exact ⟨isDomainName_eq_true_iff_isName, isDomainName_eq_true_iff_isName⟩

-- The dot behind a label of the greatest length is not part of it.
example : isDomainName (List.replicate 63 'a' ++ ['.']) = true ∧
    isDomainName (List.replicate 64 'a') = false := by
  decide

end NetDial
