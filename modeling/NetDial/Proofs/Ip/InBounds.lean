import NetDial.Proofs.Ip.InPlace

/-!
# Reading in place stays in bounds

What the reader in place does to its buffer, the reader of texts does to its groups:
the octets of the groups so far fill the buffer from its start on, with zeros behind
them, and the index is that of the text that is left (`ofScan`). Every turn keeps
that (`turn_ofScan`), so that no step faults, and the readers give the same address
or refuse the same bytes.

**Results.**
* `turn_ofScan`, `run_ofScan`, `close_ofScan`: a turn, the loop and the end of reading
  are those of the reader of texts.
* `Reading.step`: what a step keeps.
* `read_eq`, `read_bytes`: reading in place never faults, and reads what the reader of
  texts does.
* `Reached.inBounds`, `Reached.turn_cases`: in every state of the loop the places are
  within the buffer and the bytes.
* `literals_read_in_bounds`: all of this, with the exact values of the runs of digits.
-/
namespace NetDial.Ipv6

open Checked
open Ip (tailAt indexOf)
open Text (ofBytes)

/-! ## Groups in the buffer -/

/-- The octets of groups. -/
def octetsOf (gs : List UInt16) : List UInt8 :=
  gs.flatMap fun g => [highOctet g, lowOctet g]

/-- The buffer that groups fill from its start on. -/
def padded (gs : List UInt16) : List UInt8 :=
  octetsOf gs ++ List.replicate (16 - 2 * gs.length) 0

theorem octetsOf_cons (g : UInt16) (gs : List UInt16) :
    octetsOf (g :: gs) = highOctet g :: lowOctet g :: octetsOf gs :=
  rfl

theorem octetsOf_append (gs hs : List UInt16) :
    octetsOf (gs ++ hs) = octetsOf gs ++ octetsOf hs :=
  List.flatMap_append

theorem length_octetsOf (gs : List UInt16) : (octetsOf gs).length = 2 * gs.length := by
  induction gs with
  | nil => rfl
  | cons g gs ih =>
    rw [octetsOf_cons, List.length_cons, List.length_cons, List.length_cons, ih]
    omega

theorem groupsOf_octetsOf (gs : List UInt16) : groupsOf (octetsOf gs) = gs := by
  induction gs with
  | nil => rfl
  | cons g gs ih => rw [octetsOf_cons, groupsOf, groupOfOctets_octets, ih]

theorem octetsOf_replicate (n : Nat) :
    octetsOf (List.replicate n 0) = List.replicate (2 * n) 0 := by
  induction n with
  | zero => rfl
  | succ n ih =>
    rw [List.replicate_succ, octetsOf_cons, ih]
    rfl

theorem octetsOf_groups (x : Ipv4) : octetsOf x.groups = [x.a, x.b, x.c, x.d] := by
  simp [octetsOf, Ipv4.groups, highOctet_groupOfOctets, lowOctet_groupOfOctets]

theorem length_padded {gs : List UInt16} (h : gs.length ≤ 8) : (padded gs).length = 16 := by
  rw [padded, List.length_append, length_octetsOf, List.length_replicate]
  omega

theorem padded_full {gs : List UInt16} (h : gs.length = 8) : padded gs = octetsOf gs := by
  rw [padded, h]
  exact List.append_nil _

/-- There is room for more groups as long as there are at most eight. -/
theorem padded_eq {gs hs : List UInt16} (h : gs.length + hs.length ≤ 8) :
    padded gs =
      octetsOf gs ++ List.replicate (2 * hs.length) 0 ++
        List.replicate (16 - 2 * (gs ++ hs).length) 0 := by
  have hroom : 16 - 2 * gs.length = 2 * hs.length + (16 - 2 * (gs ++ hs).length) := by
    rw [List.length_append]
    omega
  rw [padded, hroom, List.append_assoc, List.replicate_append_replicate]

theorem overwrite_padded {gs hs : List UInt16} (h : gs.length + hs.length ≤ 8) :
    overwrite (padded gs) (2 * gs.length) (octetsOf hs) = .ok (padded (gs ++ hs)) := by
  rw [padded_eq h, ← length_octetsOf gs,
    overwrite_append _ _ (by rw [length_octetsOf, List.length_replicate]), padded, octetsOf_append]

/-- The octets of one more group, one after the other. -/
theorem overwrite_group {gs : List UInt16} (g : UInt16) (h : gs.length < 8) :
    (overwrite (padded gs) (2 * gs.length) [highOctet g] >>= fun octets =>
      overwrite octets (2 * gs.length + 1) [lowOctet g]) = .ok (padded (gs ++ [g])) := by
  have hroom : gs.length + [g].length ≤ 8 := h
  have hzeros : List.replicate (2 * [g].length) (0 : UInt8) = [0, 0] := rfl
  have hoctets : octetsOf [g] = [highOctet g, lowOctet g] := rfl
  rw [padded_eq hroom, hzeros, ← length_octetsOf gs, overwrite_two, padded, octetsOf_append, hoctets]

/-- A gap in a buffer is filled as the ellipsis is. -/
theorem openGap_padded {ls rs : List UInt16} (h : ls.length + rs.length ≤ 8) :
    Buffer.openGap (padded (ls ++ rs)) (2 * ls.length) (2 * (ls ++ rs).length) =
      .ok (octetsOf (ls ++ List.replicate (8 - (ls ++ rs).length) 0 ++ rs)) := by
  have hgap : 2 * (8 - (ls ++ rs).length) = 16 - 2 * (ls ++ rs).length := by omega
  have hsixteen :
      (octetsOf ls).length + (octetsOf rs).length + (16 - 2 * (ls ++ rs).length) = 16 := by
    simp only [length_octetsOf, List.length_append]
    omega
  have hopen := openGap_append hsixteen
  rw [← octetsOf_append, ← List.length_append, ← octetsOf_append, length_octetsOf,
    length_octetsOf] at hopen
  rw [padded, hopen, octetsOf_append, octetsOf_append, octetsOf_replicate, hgap]

theorem ofOctets_octetsOf {gs : List UInt16} (h : gs.length = 8) :
    ofOctets (octetsOf gs) = ofOption (ofGroups? gs) := by
  rw [ofOctets, groupsOf_octetsOf, ofGroups?, dif_pos h]
  rfl

/-! ## The state as a buffer -/

/-- The buffer of a state of the reader of texts. -/
def ofScan (s : List UInt8) (t : Scan) : Buffer :=
  ⟨padded t.groups, t.ellipsis.map (2 * ·), 2 * t.groups.length, indexOf s t.rest⟩

/-- The turn of a step, unless that fails. -/
def ofProgress (s : List UInt8) : Progress → Option Turn
  | .failed => none
  | .more t => some (.more (ofScan s t))
  | .finished t => some (.finished (ofScan s t))

/-- A state while these bytes are read: what is left stands at their end, and the
groups so far fit an address. -/
structure Reading (s : List UInt8) (t : Scan) : Prop where
  suffix : t.rest <:+ ofBytes s
  groups_le : t.groups.length ≤ 8
  ellipsis_le : ∀ k ∈ t.ellipsis, k ≤ t.groups.length

variable {s : List UInt8} {t u : Scan} {c : Char} {rest : Text}

theorem filled_ofScan_lt_iff : (ofScan s t).filled < 16 ↔ t.groups.length < 8 := by
  simp only [ofScan]
  omega

theorem indexOf_le (s : List UInt8) (rest : Text) : indexOf s rest ≤ s.length :=
  Nat.sub_le _ _

theorem indexOf_cons (h : c :: rest <:+ ofBytes s) :
    indexOf s (c :: rest) < s.length ∧ charAt s (indexOf s (c :: rest)) = .ok c ∧
      indexOf s rest = indexOf s (c :: rest) + 1 := by
  have hle := h.length_le
  rw [Text.length_ofBytes, List.length_cons] at hle
  have hlt : indexOf s (c :: rest) < s.length := by
    rw [indexOf, List.length_cons]
    omega
  have htail := Ip.tailAt_indexOf h
  rw [Ip.tailAt_of_lt hlt, List.cons.injEq] at htail
  refine ⟨hlt, ?_, ?_⟩
  · rw [charAt_of_lt hlt, htail.1]
  · rw [indexOf, indexOf, List.length_cons]
    omega

/-! ## The same steps -/

namespace Scan

/-- Passes the colon or the ellipsis behind a group. -/
def passColon (t : Scan) : Progress :=
  match t.rest with
  | [] => .finished t
  | [':'] => .failed
  | ':' :: ':' :: rest =>
    if t.ellipsis.isSome then .failed
    else
      let t := { t with ellipsis := some t.groups.length, rest }
      if rest = [] then .finished t else .more t
  | ':' :: rest => .more { t with rest }
  | _ => .failed

/-- A step reads a group and passes what stands behind it, unless a dot does. -/
theorem step_eq (quad : Text → Option Ipv4) (t : Scan) :
    step quad t =
      match Ip.scanHex? t.rest with
      | none => .failed
      | some (n, after) =>
        if after.head? = some '.' then stepQuad quad t
        else (t.push n.toUInt16 after).passColon := by
  unfold step
  cases Ip.scanHex? t.rest with
  | none => rfl
  | some p =>
    obtain ⟨n, after⟩ := p
    by_cases hdot : after.head? = some '.'
    · obtain ⟨rest, rfl⟩ := List.head?_eq_some_iff.1 hdot
      rfl
    · simp only [if_neg hdot, passColon, push]
      split <;> simp_all

end Scan

theorem isDotAt_indexOf (h : rest <:+ ofBytes s) :
    Buffer.isDotAt s (indexOf s rest) = .ok (rest.head? == some '.') := by
  unfold Buffer.isDotAt
  cases rest with
  | nil => simp [indexOf, pure, Except.pure]
  | cons c rest =>
    obtain ⟨hlt, hchar, -⟩ := indexOf_cons h
    rw [if_pos hlt, hchar]
    rfl

theorem takeQuad_ofScan (h : Reading s t) :
    (ofScan s t).takeQuad s = ofOption (ofProgress s (t.stepQuad Ipv4.parse?)) := by
  have hsix : (ofScan s t).ellipsis.isNone = true ∧ (ofScan s t).filled ≠ 12 ↔
      t.ellipsis.isNone = true ∧ t.groups.length ≠ 6 := by
    simp only [ofScan, Option.isNone_map]
    exact and_congr_right fun _ => by omega
  have hmore : 16 < (ofScan s t).filled + 4 ↔ 6 < t.groups.length := by
    simp only [ofScan]
    omega
  have hbehind : between s (ofScan s t).index s.length = .ok (s.drop (indexOf s t.rest)) := by
    rw [between, if_pos ⟨indexOf_le s t.rest, Nat.le_refl _⟩, List.take_length]
    rfl
  have hquad : quad (s.drop (indexOf s t.rest)) = ofOption (Ipv4.parse? t.rest) := by
    rw [quad_eq]
    exact congrArg (fun rest => ofOption (Ipv4.parse? rest)) (Ip.tailAt_indexOf h.suffix)
  unfold Buffer.takeQuad Scan.stepQuad
  simp only [hsix, hmore]
  split
  · rfl
  · split
    · rfl
    · rename_i hlen
      rw [hbehind, ok_bind, hquad]
      cases Ipv4.parse? t.rest with
      | none => rfl
      | some x =>
        have hx : x.groups.length = 2 := rfl
        have hroom : t.groups.length + x.groups.length ≤ 8 := by omega
        have hover : overwrite (padded t.groups) (2 * t.groups.length) [x.a, x.b, x.c, x.d] =
            .ok (padded (t.groups ++ x.groups)) := by
          rw [← octetsOf_groups, overwrite_padded hroom]
        have hfilled : 2 * t.groups.length + 4 = 2 * (t.groups ++ x.groups).length := by
          rw [List.length_append, hx, Nat.mul_add]
        simp only [ofOption_some, ok_bind, ofScan, hover, hfilled]
        rfl

theorem takeGroup_ofScan {n : UInt32} (h : t.groups.length < 8) (hn : n.toNat < UInt16.size) :
    (ofScan s t).takeGroup n.toNat (indexOf s rest) = .ok (ofScan s (t.push n.toUInt16 rest)) := by
  have hgroup : UInt16.ofNat n.toNat = n.toUInt16 := rfl
  have hfilled : 2 * t.groups.length + 2 = 2 * (t.groups ++ [n.toUInt16]).length := by
    rw [List.length_append, List.length_singleton, Nat.mul_add]
  obtain ⟨octets, hhigh, hlow⟩ := bind_eq_ok_iff.1 (overwrite_group n.toUInt16 h)
  unfold Buffer.takeGroup
  rw [fits_of_lt hn, ok_bind]
  simp only [hgroup, ofScan, hhigh, hlow, ok_bind, hfilled]
  rfl

/-- Two characters behind a group, the first of them a colon. -/
theorem passColon_of_colon {b : Buffer} (h : ':' :: c :: rest <:+ ofBytes s)
    (hindex : b.index = indexOf s (':' :: c :: rest)) :
    b.passColon s =
      if c = ':' then
        if b.ellipsis.isSome then reject
        else if indexOf s rest = s.length then
          .ok (.finished { b with ellipsis := some b.filled, index := indexOf s rest })
        else .ok (.more { b with ellipsis := some b.filled, index := indexOf s rest })
      else .ok (.more { b with index := indexOf s (c :: rest) }) := by
  obtain ⟨hlt, hcolon, hnext⟩ := indexOf_cons h
  obtain ⟨hlt', hc, hnext'⟩ := indexOf_cons ((List.suffix_cons ':' (c :: rest)).trans h)
  have htwo : b.index + 2 = indexOf s rest := by omega
  have hmore : ¬(':' ≠ ':' ∨ indexOf s (c :: rest) = s.length) := by
    simp only [ne_eq, not_true_eq_false, false_or]
    exact Nat.ne_of_lt hlt'
  unfold Buffer.passColon
  rw [htwo, hindex, ← hnext, if_neg (Nat.ne_of_lt hlt), hcolon, ok_bind, if_neg hmore, hc, ok_bind]
  rfl

theorem passColon_of_other {b : Buffer} (h : c :: rest <:+ ofBytes s) (hc : c ≠ ':')
    (hindex : b.index = indexOf s (c :: rest)) : b.passColon s = reject := by
  obtain ⟨hlt, hchar, -⟩ := indexOf_cons h
  unfold Buffer.passColon
  rw [hindex, if_neg (Nat.ne_of_lt hlt), hchar, ok_bind, if_pos (.inl hc)]

/-- A literal does not end in a single colon. -/
theorem passColon_of_last {b : Buffer} (h : [':'] <:+ ofBytes s)
    (hindex : b.index = indexOf s [':']) : b.passColon s = reject := by
  obtain ⟨hlt, hchar, hnext⟩ := indexOf_cons h
  have hend : indexOf s [':'] + 1 = s.length := hnext.symm
  unfold Buffer.passColon
  rw [hindex, if_neg (Nat.ne_of_lt hlt), hchar, ok_bind, if_pos (.inr hend)]

theorem passColon_ofScan (h : t.rest <:+ ofBytes s) :
    (ofScan s t).passColon s = ofOption (ofProgress s t.passColon) := by
  obtain ⟨gs, e, rest⟩ := t
  simp only at h
  cases rest with
  | nil => exact if_pos rfl
  | cons c rest =>
    by_cases hcolon : c = ':'
    · subst hcolon
      cases rest with
      | nil => exact passColon_of_last h rfl
      | cons d rest =>
        rw [passColon_of_colon h rfl]
        by_cases hellipsis : d = ':'
        · subst hellipsis
          have hrest : rest <:+ ofBytes s := ((List.suffix_append [':', ':'] rest).trans h)
          have hend := Ip.indexOf_eq_length_iff hrest
          rw [if_pos rfl]
          cases e with
          | some k => rfl
          | none =>
            simp only [ofScan, Option.map_none, Option.isSome_none, Bool.false_eq_true, if_false,
              hend, Scan.passColon]
            split
            · rfl
            · rfl
        · rw [if_neg hellipsis]
          simp [Scan.passColon, hellipsis, ofProgress, ofScan]
    · rw [passColon_of_other h hcolon rfl]
      simp [Scan.passColon, hcolon, ofProgress]

/-- **One turn.** A turn does to the buffer what a step does to the groups. -/
theorem turn_ofScan (h : Reading s t) (hlen : t.groups.length < 8) :
    (ofScan s t).turn s = ofOption (ofProgress s (t.step Ipv4.parse?)) := by
  have htail : tailAt s (ofScan s t).index = t.rest := Ip.tailAt_indexOf h.suffix
  unfold Buffer.turn
  rw [Scan.step_eq, hexAt_eq, htail]
  cases hscan : Ip.scanHex? t.rest with
  | none => rfl
  | some p =>
    obtain ⟨n, after⟩ := p
    obtain ⟨hafter, -, hfits⟩ := of_scanHex? hscan
    have hsuffix : after <:+ ofBytes s := hafter.trans h.suffix
    simp only [Option.map_some, ofOption_some, ok_bind, isDotAt_indexOf hsuffix, beq_iff_eq]
    split
    · exact takeQuad_ofScan h
    · rw [takeGroup_ofScan hlen hfits, ok_bind]
      exact passColon_ofScan hsuffix

/-! ## Every state is in bounds -/

/-- The state after a step. -/
def Progress.scan? : Progress → Option Scan
  | .failed => none
  | .more t => some t
  | .finished t => some t

theorem length_groups_of_more (h : t.step Ipv4.parse? = .more u) :
    u.groups.length = t.groups.length + 1 := by
  have hsteps := Scan.stepped t
  rw [h] at hsteps
  cases hsteps with
  | group => exact List.length_append
  | ellipsis => exact List.length_append

namespace Reading

theorem start (s : List UInt8) : Reading s (Scan.start (ofBytes s)) := by
  rcases Scan.start_cases (ofBytes s) with ⟨r, htext, hstart⟩ | hstart
  · rw [hstart]
    refine ⟨htext ▸ List.suffix_append [':', ':'] r, Nat.zero_le _, ?_⟩
    simp
  · rw [hstart]
    exact ⟨List.suffix_refl _, Nat.zero_le _, by simp⟩

theorem push (h : Reading s t) (hlen : t.groups.length < 8) (g : UInt16) (hrest : rest <:+ t.rest) :
    Reading s (t.push g rest) := by
  have hlength : (t.push g rest).groups.length = t.groups.length + 1 := List.length_append
  refine ⟨hrest.trans h.suffix, hlength ▸ hlen, fun k hk => ?_⟩
  rw [hlength]
  exact Nat.le_succ_of_le (h.ellipsis_le k hk)

/-- An ellipsis stands behind the groups so far. -/
theorem ellipsis (h : Reading s t) : Reading s { t with ellipsis := some t.groups.length } := by
  refine ⟨h.suffix, h.groups_le, fun k hk => ?_⟩
  cases hk
  exact Nat.le_refl _

/-- What a step keeps. -/
theorem step (h : Reading s t) (hlen : t.groups.length < 8)
    (hstep : (t.step Ipv4.parse?).scan? = some u) : Reading s u := by
  have hsteps := Scan.stepped t
  generalize t.step Ipv4.parse? = p at hstep hsteps
  cases hsteps with
  | failed => cases hstep
  | lastGroup g hg =>
    cases hstep
    exact h.push hlen g List.nil_suffix
  | group digits rest g hg hs hne =>
    cases hstep
    exact h.push hlen g ⟨digits ++ [':'], by simp [hs]⟩
  | lastEllipsis digits g hg hs hone =>
    cases hstep
    simpa [Scan.push] using (h.push hlen g List.nil_suffix).ellipsis
  | ellipsis digits rest g hg hs hone hne =>
    cases hstep
    have hrest : rest <:+ t.rest := ⟨digits ++ [':', ':'], by simp [hs]⟩
    simpa [Scan.push] using (h.push hlen g hrest).ellipsis
  | quad x hx hsix =>
    cases hstep
    have hx : x.groups.length = 2 := rfl
    refine ⟨List.nil_suffix, ?_, fun k hk => ?_⟩
    · simp only [List.length_append]
      omega
    · have := h.ellipsis_le k hk
      simp only [List.length_append]
      omega

theorem run {room : Nat} (h : Reading s t) (hroom : room + t.groups.length = 8)
    (hrun : Scan.run Ipv4.parse? room t = some u) : Reading s u := by
  induction room generalizing t with
  | zero =>
    cases hrun
    exact h
  | succ room ih =>
    have hlen : t.groups.length < 8 := by omega
    rw [Scan.run] at hrun
    split at hrun
    · cases hrun
    · rename_i hstep
      cases hrun
      exact h.step hlen (by rw [hstep]; rfl)
    · rename_i v hstep
      have hlength := length_groups_of_more hstep
      exact ih (h.step hlen (by rw [hstep]; rfl)) (by omega) hrun

end Reading

/-! ## The whole reader -/

theorem run_of_more {b b' : Buffer} (h : b.filled < 16) (hturn : b.turn s = .ok (.more b')) :
    b.run s = b'.run s := by
  rw [Buffer.run, if_pos h]
  split <;> simp_all

theorem run_of_finished {b b' : Buffer} (h : b.filled < 16)
    (hturn : b.turn s = .ok (.finished b')) : b.run s = .ok b' := by
  rw [Buffer.run, if_pos h]
  split <;> simp_all

theorem run_of_reject {b : Buffer} (h : b.filled < 16) (hturn : b.turn s = reject) :
    b.run s = reject := by
  rw [Buffer.run, if_pos h]
  split <;> simp_all [reject]

/-- The loop ends with what a run ends with. The induction is on the groups that
there is still room for. -/
theorem run_ofScan {room : Nat} (h : Reading s t) (hroom : room + t.groups.length = 8) :
    (ofScan s t).run s = ofOption ((Scan.run Ipv4.parse? room t).map (ofScan s)) := by
  induction room generalizing t with
  | zero =>
    have hfull : ¬(ofScan s t).filled < 16 := by
      rw [filled_ofScan_lt_iff]
      omega
    rw [Buffer.run, if_neg hfull]
    rfl
  | succ room ih =>
    have hlen : t.groups.length < 8 := by omega
    have hfilled : (ofScan s t).filled < 16 := filled_ofScan_lt_iff.2 hlen
    have hturn := turn_ofScan h hlen
    rw [Scan.run]
    cases hstep : t.step Ipv4.parse? with
    | failed =>
      rw [hstep] at hturn
      exact run_of_reject hfilled hturn
    | finished u =>
      rw [hstep] at hturn
      exact run_of_finished hfilled hturn
    | more u =>
      rw [hstep] at hturn
      have hlength := length_groups_of_more hstep
      rw [run_of_more hfilled hturn]
      exact ih (h.step hlen (by rw [hstep]; rfl)) (by omega)

/-- The octets of the groups behind the ellipsis move to the end of the buffer. -/
theorem openGap_ofScan {k : Nat} (h : Reading s t) (hk : t.ellipsis = some k) :
    Buffer.openGap (padded t.groups) (2 * k) (2 * t.groups.length) =
      .ok (octetsOf (Scan.expand t.groups k)) := by
  have htake : (t.groups.take k).length = k := by
    rw [List.length_take]
    exact Nat.min_eq_left (h.ellipsis_le k hk)
  have hopen : (t.groups.take k).length + (t.groups.drop k).length ≤ 8 → _ := openGap_padded
  rw [← List.length_append, List.take_append_drop, htake] at hopen
  exact hopen h.groups_le

theorem length_expand {gs : List UInt16} {k : Nat} (h : gs.length ≤ 8) :
    (Scan.expand gs k).length = 8 := by
  simp only [Scan.expand, List.length_append, List.length_take, List.length_replicate,
    List.length_drop]
  omega

theorem close_ofScan (h : Reading s t) : (ofScan s t).close s = ofOption t.close := by
  have hend : (ofScan s t).index = s.length ↔ t.rest = [] := Ip.indexOf_eq_length_iff h.suffix
  unfold Buffer.close Scan.close
  simp only [ne_eq, hend, filled_ofScan_lt_iff]
  split
  · rfl
  · by_cases hlen : t.groups.length < 8
    · rw [if_pos hlen]
      cases hellipsis : t.ellipsis with
      | none =>
        have hnone : ofGroups? t.groups = none := dif_neg (Nat.ne_of_lt hlen)
        simp only [ofScan, hellipsis, Option.map_none, hnone, ofOption_none]
      | some k =>
        simp only [ofScan, hellipsis, Option.map_some, openGap_ofScan h hellipsis, ok_bind,
          if_pos hlen]
        exact ofOctets_octetsOf (length_expand h.groups_le)
    · have hall : t.groups.length = 8 := Nat.le_antisymm h.groups_le (Nat.le_of_not_lt hlen)
      rw [if_neg hlen]
      cases hellipsis : t.ellipsis with
      | none =>
        simp only [ofScan, hellipsis, Option.map_none, Option.isSome_none, Bool.false_eq_true,
          if_false, padded_full hall]
        exact ofOctets_octetsOf hall
      | some k =>
        simp only [ofScan, hellipsis, if_neg hlen]
        rfl

theorem start_of_short (h : s.length < 2) :
    Buffer.start s = .ok ⟨List.replicate 16 0, none, 0, 0⟩ :=
  if_neg (Nat.not_le_of_lt h)

theorem start_of_two {d : Char} (h : ofBytes s = c :: d :: rest) :
    Buffer.start s =
      if c = ':' ∧ d = ':' then .ok ⟨List.replicate 16 0, some 0, 0, indexOf s rest⟩
      else .ok ⟨List.replicate 16 0, none, 0, 0⟩ := by
  have hfirst : indexOf s (c :: d :: rest) = 0 := h ▸ Ip.indexOf_ofBytes s
  have hsuffix : c :: d :: rest <:+ ofBytes s := h ▸ List.suffix_refl _
  obtain ⟨-, hc, hsecond⟩ := indexOf_cons hsuffix
  obtain ⟨hlen, hd, hthird⟩ := indexOf_cons ((List.suffix_cons c (d :: rest)).trans hsuffix)
  rw [hfirst] at hc hsecond
  rw [hsecond, Nat.zero_add] at hlen hd hthird
  have htwo : 2 ≤ s.length := hlen
  unfold Buffer.start
  rw [if_pos htwo, hc, ok_bind, hd, ok_bind, hthird]
  rfl

theorem start_eq (s : List UInt8) : Buffer.start s = .ok (ofScan s (Scan.start (ofBytes s))) := by
  have hlength := Text.length_ofBytes s
  have hplain : ofScan s ⟨[], none, ofBytes s⟩ = ⟨List.replicate 16 0, none, 0, 0⟩ := by
    rw [ofScan, Ip.indexOf_ofBytes]
    rfl
  rcases Scan.start_cases (ofBytes s) with ⟨r, htext, hstart⟩ | hstart
  · rw [hstart, start_of_two htext]
    rfl
  · rw [hstart, hplain]
    cases htext : ofBytes s with
    | nil =>
      rw [htext] at hlength
      exact start_of_short (hlength ▸ Nat.zero_lt_two)
    | cons c u =>
      cases u with
      | nil =>
        rw [htext] at hlength
        exact start_of_short (hlength ▸ Nat.one_lt_two)
      | cons d r =>
        rw [start_of_two htext, if_neg]
        rintro ⟨rfl, rfl⟩
        rw [htext] at hstart
        cases hstart

theorem read_eq (s : List UInt8) : read s = ofOption (parse? (ofBytes s)) := by
  have hread := Reading.start s
  have hsome : (ofScan s (Scan.start (ofBytes s))).ellipsis = some 0 ↔
      (Scan.start (ofBytes s)).ellipsis = some 0 := by
    simp only [ofScan]
    cases (Scan.start (ofBytes s)).ellipsis with
    | none => simp
    | some k =>
      simp only [Option.map_some, Option.some.injEq]
      omega
  have hend : (ofScan s (Scan.start (ofBytes s))).index = s.length ↔
      (Scan.start (ofBytes s)).rest = [] := Ip.indexOf_eq_length_iff hread.suffix
  have hroom : 8 + (Scan.start (ofBytes s)).groups.length = 8 := by
    rcases Scan.start_cases (ofBytes s) with ⟨r, -, hstart⟩ | hstart
    · rw [hstart]; rfl
    · rw [hstart]; rfl
  unfold read
  rw [start_eq, ok_bind, parse?_eq, run_ofScan hread hroom]
  simp only [hsome, hend]
  split
  · rfl
  · cases hrun : Scan.run Ipv4.parse? 8 (Scan.start (ofBytes s)) with
    | none => rfl
    | some t => exact close_ofScan (hread.run hroom hrun)

theorem ascii_of_parse? {text : Text} {x : Ipv6} (h : parse? text = some x) :
    ∀ c ∈ text, c.toNat < 128 := by
  intro c hc
  exact ascii_of_isLiteralChar ((isLiteral_of_parse? h).chars c hc)

/-- The bytes of a text are read as the text is. -/
theorem read_bytes (text : Text) : read (Text.bytes text) = ofOption (parse? text) := by
  have hsame : parse? (ofBytes (Text.bytes text)) = parse? text :=
    Option.ext fun x => Text.ofBytes_bytes_iff (fun _ => ascii_of_parse?) text
  rw [read_eq, hsame]

/-! ## The states of the loop -/

/-- The states in which the loop takes a turn, or is left because the octets are
filled. -/
inductive Reached (s : List UInt8) : Buffer → Prop where
  | start {b : Buffer} (h : Buffer.start s = .ok b) : Reached s b
  | turn {b b' : Buffer} (h : Reached s b) (hroom : b.filled < 16)
      (hturn : b.turn s = .ok (.more b')) : Reached s b'

/-- A buffer whose places are within it, and whose index is within the bytes. -/
structure InBounds (s : List UInt8) (b : Buffer) : Prop where
  length_octets : b.octets.length = 16
  even : b.filled % 2 = 0
  filled_le : b.filled ≤ 16
  ellipsis_le : ∀ e ∈ b.ellipsis, e ≤ b.filled
  index_le : b.index ≤ s.length

theorem Reading.inBounds (h : Reading s t) : InBounds s (ofScan s t) := by
  have hgroups := h.groups_le
  refine ⟨length_padded hgroups, ?_, ?_, ?_, indexOf_le s t.rest⟩
  · simp only [ofScan]
    omega
  · simp only [ofScan]
    omega
  · intro e he
    simp only [ofScan, Option.mem_def, Option.map_eq_some_iff] at he ⊢
    obtain ⟨k, hk, rfl⟩ := he
    have := h.ellipsis_le k hk
    omega

/-- A turn refuses, or it leads to the buffer of another state of the reader. -/
theorem Reading.turn_cases (h : Reading s t) (hroom : (ofScan s t).filled < 16) :
    (ofScan s t).turn s = reject ∨
      ∃ next u, (ofScan s t).turn s = .ok next ∧ next.buffer = ofScan s u ∧ Reading s u := by
  have hlen : t.groups.length < 8 := filled_ofScan_lt_iff.1 hroom
  rw [turn_ofScan h hlen]
  cases hstep : t.step Ipv4.parse? with
  | failed => exact .inl rfl
  | more u => exact .inr ⟨_, u, rfl, rfl, h.step hlen (by rw [hstep]; rfl)⟩
  | finished u => exact .inr ⟨_, u, rfl, rfl, h.step hlen (by rw [hstep]; rfl)⟩

namespace Reached

variable {b : Buffer}

/-- Every state of the loop is the buffer of a state of the reader of texts. -/
theorem exists_reading (h : Reached s b) : ∃ t, Reading s t ∧ b = ofScan s t := by
  induction h with
  | start h =>
    rw [start_eq] at h
    cases h
    exact ⟨_, Reading.start s, rfl⟩
  | turn h hroom hturn ih =>
    obtain ⟨t, hread, rfl⟩ := ih
    rcases hread.turn_cases hroom with hreject | ⟨next, u, hnext, hbuffer, hu⟩
    · rw [hreject] at hturn
      cases hturn
    · rw [hnext] at hturn
      cases hturn
      exact ⟨u, hu, hbuffer⟩

theorem inBounds (h : Reached s b) : InBounds s b := by
  obtain ⟨t, hread, rfl⟩ := h.exists_reading
  exact hread.inBounds

/-- No turn faults; one that does not refuse stays in bounds and moves the index
forward. -/
theorem turn_cases (h : Reached s b) (hroom : b.filled < 16) :
    b.turn s = reject ∨
      ∃ next, b.turn s = .ok next ∧ InBounds s next.buffer ∧ b.index < next.buffer.index := by
  obtain ⟨t, hread, rfl⟩ := h.exists_reading
  rcases hread.turn_cases hroom with hreject | ⟨next, u, hnext, hbuffer, hu⟩
  · exact .inl hreject
  · exact .inr ⟨next, hnext, hbuffer ▸ hu.inBounds, (Buffer.index_turn hnext).1⟩

end Reached

/-- **Bounds.** The scanners of literals work in place, in words of fixed size, on any
bytes, and never fault.

A run of decimal digits of any length is read as its exact value, or refused if that
reaches the limit or there is no digit; one of hexadecimal digits is read as its exact
value if it has one to four digits, and that fits 16 bits. In every state of the loop
that reads groups the filled octets are an even number up to sixteen, the ellipsis
stands among them, and the next turn moves the index forward or refuses. Reading as a
whole gives the address that the reader of texts gives, or refuses as that does. -/
theorem literals_read_in_bounds (s : List UInt8) :
    (∀ start ≤ s.length,
      decimalAt s start =
        if runAt Char.isDigit s start ≠ [] ∧
            Text.decimalValue (runAt Char.isDigit s start) < Ip.decimalLimit.toNat then
          .ok (Text.decimalValue (runAt Char.isDigit s start),
            start + (runAt Char.isDigit s start).length)
        else reject) ∧
    (∀ start ≤ s.length,
      hexAt s start =
        if runAt Text.isHexDigit s start ≠ [] ∧ (runAt Text.isHexDigit s start).length ≤ 4 then
          .ok (Text.hexadecimalValue (runAt Text.isHexDigit s start),
            start + (runAt Text.isHexDigit s start).length)
        else reject) ∧
    (∀ start n stop, hexAt s start = .ok (n, stop) →
      n ≤ 0xffff ∧ fits UInt16.size n = .ok n) ∧
    (∀ b, Reached s b →
      InBounds s b ∧
        (b.filled < 16 →
          b.turn s = reject ∨
            ∃ next, b.turn s = .ok next ∧ InBounds s next.buffer ∧
              b.index < next.buffer.index)) ∧
    read s = ofOption (parse? (ofBytes s)) ∧
    ∀ text, Text.bytes text = s → read s = ofOption (parse? text) := by
  refine ⟨fun start h => decimalAt_run h, fun start h => hexAt_run h, ?_, ?_, read_eq s, ?_⟩
  · intro start n stop hhex
    obtain ⟨hfits, -, -⟩ := of_hexAt hhex
    exact ⟨Nat.le_of_lt_succ hfits, fits_of_lt hfits⟩
  · intro b hreached
    exact ⟨hreached.inBounds, hreached.turn_cases⟩
  · rintro text rfl
    exact read_bytes text

/-- On `1::` the run at the start is a number in both bases, and one turn of the loop
reads the literal. -/
theorem literals_read_in_bounds_ellipsis :
    let s : List UInt8 := [49, 58, 58]
    let b : Buffer := ⟨List.replicate 16 0, none, 0, 0⟩
    0 ≤ s.length ∧ decimalAt s 0 = .ok (1, 1) ∧
      hexAt s 0 = .ok (1, 1) ∧ 1 ≤ 0xffff ∧ fits UInt16.size 1 = .ok 1 ∧
      Reached s b ∧ InBounds s b ∧
      b.filled < 16 ∧
      (b.turn s = reject ∨
        ∃ next, b.turn s = .ok next ∧ InBounds s next.buffer ∧ b.index < next.buffer.index) ∧
      Text.bytes "1::".toList = s ∧
      read s = .ok ⟨[1, 0, 0, 0, 0, 0, 0, 0], rfl⟩ := by
  obtain ⟨hdecimal, hhex, hvalue, hloop, -, htext⟩ := literals_read_in_bounds [49, 58, 58]
  have hstart : Reached [49, 58, 58] ⟨List.replicate 16 0, none, 0, 0⟩ := .start rfl
  have hone : hexAt [49, 58, 58] 0 = .ok (1, 1) := hhex 0 (by decide)
  have hbytes : Text.bytes "1::".toList = [49, 58, 58] := by decide
  obtain ⟨hle, hfits⟩ := hvalue 0 1 1 hone
  obtain ⟨hbounds, hturn⟩ := hloop _ hstart
  exact ⟨by decide, hdecimal 0 (by decide), hone, hle, hfits, hstart, hbounds, by decide,
    hturn (by decide), hbytes, htext _ hbytes⟩

end NetDial.Ipv6
