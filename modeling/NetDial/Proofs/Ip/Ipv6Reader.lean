import NetDial.Proofs.Ip.Ipv6Grammar

/-!
# The reader of IPv6 literals

The reader goes through a text from left to right, with the groups so far and
the place of the ellipsis as its state. Every step of it takes a part that the
grammar knows, and a run puts the parts together.

**Results.**
* `stepped`: what one step of the reader can do.
* `run_sound`: what a run has read when nothing is left.
* `run_tail`, `run_head`: the texts that a run reads to the end.
* `parse?_eq_some_iff_isLiteral`: the reader accepts a text with the groups that
  it stands for as a literal.
* `accepts_iff_isLiteral`: the reader accepts exactly the literals.
-/
namespace NetDial.Ipv6

open Text (isHexDigit hexadecimalValue)

theorem ofGroups?_eq_some_iff {gs : List UInt16} {x : Ipv6} :
    ofGroups? gs = some x ↔ gs = x.groups := by
  constructor
  · intro h
    unfold ofGroups? at h
    split at h
    · simp only [Option.some.injEq] at h
      subst h
      rfl
    · cases h
  · intro h
    rw [h]
    exact ofGroups?_groups x

/-! ## One step of the reader -/

namespace Scan

variable {s t : Scan}

/-- What a step can do: fail, take a group and what separates it from the next
one, or take what ends the literal. -/
inductive Stepped (s : Scan) : Progress → Prop where
  | failed : Stepped s .failed
  | lastGroup (g : UInt16) (h : IsGroup s.rest g) : Stepped s (.finished (s.push g []))
  | group (digits rest : Text) (g : UInt16) (h : IsGroup digits g)
      (hs : s.rest = digits ++ ':' :: rest) (hne : rest ≠ []) : Stepped s (.more (s.push g rest))
  | lastEllipsis (digits : Text) (g : UInt16) (h : IsGroup digits g)
      (hs : s.rest = digits ++ [':', ':']) (hone : s.ellipsis = none) :
      Stepped s (.finished { s.push g [] with ellipsis := some (s.groups.length + 1) })
  | ellipsis (digits rest : Text) (g : UInt16) (h : IsGroup digits g)
      (hs : s.rest = digits ++ ':' :: ':' :: rest) (hone : s.ellipsis = none) (hne : rest ≠ []) :
      Stepped s (.more { s.push g rest with ellipsis := some (s.groups.length + 1) })
  | quad (x : Ipv4) (h : IsQuad s.rest x) (hlen : s.groups.length ≤ 6) :
      Stepped s (.finished { s with groups := s.groups ++ x.groups, rest := [] })

/-- The digits in front of a quad are also its first octet. -/
theorem stepped_quad {digits rest : Text} {g : UInt16} (h : IsGroup digits g)
    (hs : s.rest = digits ++ '.' :: rest) : Stepped s (stepQuad Ipv4.parse? s) := by
  unfold stepQuad
  split
  · exact .failed
  · split
    · exact .failed
    · rename_i hlen
      split
      · exact .failed
      · rename_i x hparse
        refine .quad x ⟨hparse, ?_⟩ (Nat.le_of_not_lt hlen)
        rw [hs, takeWhile_ne_dot h.digits]
        exact h.short

theorem stepped_ellipsis {digits rest : Text} {g : UInt16} (h : IsGroup digits g)
    (hs : s.rest = digits ++ ':' :: ':' :: rest) (hone : s.ellipsis = none) :
    let t := { s.push g rest with ellipsis := some (s.groups.length + 1) }
    Stepped s (if rest = [] then .finished t else .more t) := by
  by_cases hend : rest = []
  · subst hend
    exact .lastEllipsis digits g h hs hone
  · simp only [hend, if_false]
    exact .ellipsis digits rest g h hs hone hend

theorem stepped (s : Scan) : Stepped s (step Ipv4.parse? s) := by
  unfold step
  split
  · exact .failed
  · rename_i n after hscan
    obtain ⟨digits, hrest, hgroup⟩ := isGroup_of_scanHex? hscan
    simp only
    split
    · exact stepped_quad hgroup hrest
    · rw [List.append_nil] at hrest
      exact .lastGroup _ (hrest ▸ hgroup)
    · exact .failed
    · split
      · exact .failed
      · rename_i hone
        exact stepped_ellipsis hgroup hrest (by simpa using hone)
    · rename_i rest hlast _
      refine .group digits rest _ hgroup hrest ?_
      intro hnil
      subst hnil
      exact hlast rfl
    · exact .failed

variable {digits rest : Text} {g : UInt16}

theorem step_last_group (h : IsGroup s.rest g) :
    step Ipv4.parse? s = .finished (s.push g []) := by
  obtain ⟨n, hscan, hn⟩ := scanHex?_of_isGroup h [] (by simp)
  rw [List.append_nil] at hscan
  simp [step, hscan, hn]

theorem step_group (h : IsGroup digits g) (hs : s.rest = digits ++ ':' :: rest) {c : Char} {t : Text}
    (hrest : rest = c :: t) (hc : c ≠ ':') : step Ipv4.parse? s = .more (s.push g rest) := by
  obtain ⟨n, hscan, hn⟩ := scanHex?_of_isGroup h (':' :: rest) (by simp; decide)
  subst hrest
  rw [← hs] at hscan
  simp only [step, hscan, hn]
  split <;> simp_all

theorem step_ellipsis (h : IsGroup digits g) (hs : s.rest = digits ++ ':' :: ':' :: rest)
    (hone : s.ellipsis = none) :
    step Ipv4.parse? s =
      if rest = [] then
        .finished { s.push g rest with ellipsis := some (s.groups.length + 1) }
      else .more { s.push g rest with ellipsis := some (s.groups.length + 1) } := by
  obtain ⟨n, hscan, hn⟩ := scanHex?_of_isGroup h (':' :: ':' :: rest) (by simp; decide)
  rw [← hs] at hscan
  simp [step, hscan, hn, hone]

theorem step_quad {x : Ipv4} (h : IsQuad s.rest x) (hlen : s.groups.length ≤ 6)
    (hall : s.ellipsis = none → s.groups.length = 6) :
    step Ipv4.parse? s = .finished { s with groups := s.groups ++ x.groups, rest := [] } := by
  obtain ⟨digits, rest, hs, hne, hshort, hdigits⟩ := h.split
  have hvalue := Text.hexadecimalValue_lt hshort
  have hgroup : IsGroup digits (UInt16.ofNat (hexadecimalValue digits)) := by
    refine ⟨hne, hshort, fun c hc => Text.isHexDigit_of_isDigit (hdigits c hc), ?_⟩
    rw [UInt16.toNat_ofNat']
    omega
  obtain ⟨n, hscan, -⟩ := scanHex?_of_isGroup hgroup ('.' :: rest) (by simp; decide)
  rw [← hs] at hscan
  simp only [step, hscan, stepQuad, h.parsed]
  rw [if_neg (by simpa using hall), if_neg (by omega)]

/-! ## A run of the reader -/

/-- What a run has read when nothing is left: a tail, or groups, the ellipsis
and what follows it. -/
theorem run_sound {room : Nat} (hne : s.rest ≠ []) (h : run Ipv4.parse? room s = some t)
    (hend : t.rest = []) :
    (∃ gs, IsTail s.rest gs ∧ t.groups = s.groups ++ gs ∧ t.ellipsis = s.ellipsis) ∨
      ∃ l r ls rs, s.rest = l ++ ':' :: ':' :: r ∧ IsGroups l ls ∧
        (r = [] ∧ rs = [] ∨ IsTail r rs) ∧ s.ellipsis = none ∧
        t.groups = s.groups ++ (ls ++ rs) ∧ t.ellipsis = some (s.groups.length + ls.length) := by
  induction room generalizing s with
  | zero =>
    simp only [run, Option.some.injEq] at h
    subst h
    exact absurd hend hne
  | succ room ih =>
    simp only [run] at h
    have hstep := stepped s
    generalize step Ipv4.parse? s = p at h hstep
    cases hstep with
    | failed => cases h
    | lastGroup g hg =>
      cases h
      exact .inl ⟨[g], .group hg, rfl, rfl⟩
    | lastEllipsis digits g hg hs hone =>
      cases h
      exact .inr ⟨digits, [], [g], [], hs, .one hg, .inl ⟨rfl, rfl⟩, hone, rfl, rfl⟩
    | quad x hx _ =>
      cases h
      exact .inl ⟨x.groups, .quad hx, rfl, rfl⟩
    | group digits rest g hg hs hrest =>
      rcases ih hrest h with ⟨gs, hgs, ht, he⟩ | ⟨l, r, ls, rs, hsplit, hl, hr, hone, ht, he⟩
      · exact .inl ⟨g :: gs, hs ▸ .more hg hgs, by simpa [push] using ht, he⟩
      · refine .inr ⟨digits ++ ':' :: l, r, g :: ls, rs, ?_, .more hg hl, hr, hone, ?_, ?_⟩
        · have hsplit' : rest = l ++ ':' :: ':' :: r := hsplit
          simp [hs, hsplit']
        · simpa [push] using ht
        · rw [he]
          simp only [push, List.length_append, List.length_cons, List.length_nil,
            Option.some.injEq]
          omega
    | ellipsis digits rest g hg hs hone hrest =>
      -- The ellipsis was here, so none comes later.
      rcases ih hrest h with ⟨gs, hgs, ht, he⟩ | ⟨-, -, -, -, -, -, -, hnone, -, -⟩
      · exact .inr
          ⟨digits, rest, [g], gs, hs, .one hg, .inr hgs, hone, by simpa [push] using ht, he⟩
      · cases hnone

/-- A tail is read to its end when there is room for its groups. -/
theorem run_tail {gs : List UInt16} {room : Nat} (h : IsTail s.rest gs)
    (hroom : gs.length ≤ room) (hlen : s.groups.length + gs.length ≤ 8)
    (hall : s.ellipsis = none → s.groups.length + gs.length = 8) :
    run Ipv4.parse? room s = some { s with groups := s.groups ++ gs, rest := [] } := by
  generalize hr : s.rest = r at h
  induction h generalizing s room with
  | @group r g hg =>
    cases room with
    | zero => simp at hroom
    | succ room =>
      subst hr
      simp only [run, step_last_group hg]
      rfl
  | @quad r x hx =>
    have hx2 : x.groups.length = 2 := rfl
    rw [hx2] at hroom hlen hall
    obtain ⟨room, rfl⟩ : ∃ k, room = k + 1 := ⟨room - 1, by omega⟩
    subst hr
    have hsix : s.ellipsis = none → s.groups.length = 6 := by
      intro hnone
      have := hall hnone
      omega
    simp only [run, step_quad hx (by omega) hsix]
  | @more r t g gs hg ht ih =>
    cases room with
    | zero => simp at hroom
    | succ room =>
      obtain ⟨c, u, rfl, hcolon⟩ := ht.head
      simp only [run, step_group hg hr rfl hcolon]
      rw [List.length_cons] at hroom hlen hall
      rw [ih (s := s.push g (c :: u)) (by omega) (by simp [push]; omega)
        (by
          intro hnone
          have := hall hnone
          simp [push]; omega) rfl]
      simp [push]

/-- Groups in front of the ellipsis are read, and then the ellipsis is. -/
theorem run_head {l r : Text} {ls : List UInt16} {room : Nat} (h : IsGroups l ls)
    (hs : s.rest = l ++ ':' :: ':' :: r) (hone : s.ellipsis = none) :
    run Ipv4.parse? (ls.length + room) s =
      let t : Scan := ⟨s.groups ++ ls, some (s.groups.length + ls.length), r⟩
      if r = [] then some t else run Ipv4.parse? room t := by
  induction h generalizing s with
  | @one l g hg =>
    rw [List.length_singleton, Nat.add_comm]
    simp only [run, step_ellipsis hg hs hone]
    by_cases hr : r = []
    · simp [hr, push]
    · simp [hr, push]
  | @more l l' g ls hg hls ih =>
    rw [List.append_assoc, List.cons_append] at hs
    obtain ⟨c, u, hc, hcolon⟩ := hls.isTail.head
    have hroom : (g :: ls).length + room = ls.length + room + 1 := by
      simp; omega
    rw [hroom]
    simp only [run, step_group hg hs (by rw [hc]; rfl) hcolon]
    rw [ih (s := s.push g (l' ++ ':' :: ':' :: r)) rfl hone]
    simp [push, Nat.add_assoc, Nat.add_comm 1]

/-! ## Both ends of a run -/

theorem start_ellipsis (r : Text) : start (':' :: ':' :: r) = ⟨[], some 0, r⟩ := rfl

theorem start_of_head {c : Char} {r : Text} (hc : c ≠ ':') : start (c :: r) = ⟨[], none, c :: r⟩ := by
  unfold start
  split
  · rename_i h
    simp only [List.cons.injEq] at h
    exact absurd h.1 hc
  · rfl

/-- Either an ellipsis opens the text or the reader starts with all of it. -/
theorem start_cases (s : Text) :
    (∃ r, s = ':' :: ':' :: r ∧ start s = ⟨[], some 0, r⟩) ∨ start s = ⟨[], none, s⟩ := by
  unfold start
  split
  · exact .inl ⟨_, rfl, rfl⟩
  · exact .inr rfl

theorem close_full {gs : List UInt16} {x : Ipv6} :
    close ⟨gs, none, []⟩ = some x ↔ gs = x.groups := by
  simp [close, ofGroups?_eq_some_iff]

theorem close_ellipsis (ls rs : List UInt16) {x : Ipv6} :
    close ⟨ls ++ rs, some ls.length, []⟩ = some x ↔
      ls.length + rs.length ≤ 7 ∧
        ls ++ List.replicate (8 - (ls.length + rs.length)) 0 ++ rs = x.groups := by
  simp only [close, expand, ne_eq, not_true_eq_false, if_false, List.length_append,
    List.take_left, List.drop_left]
  by_cases hlen : ls.length + rs.length < 8
  · rw [if_pos hlen, ofGroups?_eq_some_iff]
    simp only [Nat.le_of_lt_succ hlen, true_and]
  · rw [if_neg hlen]
    constructor
    · intro h; cases h
    · intro h
      have := h.1
      omega

theorem rest_of_close {x : Ipv6} (h : close t = some x) : t.rest = [] := by
  unfold close at h
  split at h
  · cases h
  · rename_i hend
    exact Classical.not_not.1 hend

end Scan

/-! ## The reader accepts the grammar -/

/-- Nothing behind a leading ellipsis, or a run. -/
theorem parse?_eq (s : Text) :
    parse? s =
      if (Scan.start s).ellipsis = some 0 ∧ (Scan.start s).rest = [] then some unspecified
      else (Scan.run Ipv4.parse? 8 (Scan.start s)).bind Scan.close := by
  unfold parse? parseWith?
  split
  · rename_i hstart
    rw [hstart]
    rfl
  · rename_i hstart
    rw [if_neg]
    rintro ⟨hellipsis, hrest⟩
    exact hstart (Scan.start s).groups (by rw [← hellipsis, ← hrest])

theorem parse?_of_start {s : Text} (h : (Scan.start s).rest ≠ []) :
    parse? s = (Scan.run Ipv4.parse? 8 (Scan.start s)).bind Scan.close := by
  rw [parse?_eq, if_neg fun hopen => h hopen.2]

theorem isLiteral_of_parse? {s : Text} {x : Ipv6} (h : parse? s = some x) :
    IsLiteral s x.groups := by
  by_cases hne : (Scan.start s).rest = []
  · rcases Scan.start_cases s with ⟨r, rfl, hstart⟩ | hstart
    · rw [hstart] at hne
      simp only at hne
      subst hne
      simp only [parse?, parseWith?, Scan.start_ellipsis, Option.some.injEq] at h
      subst h
      exact .ellipsis (.inl ⟨rfl, rfl⟩) (.inl ⟨rfl, rfl⟩) (by decide)
    · rw [hstart] at hne
      simp only at hne
      subst hne
      cases h
  · rw [parse?_of_start hne, Option.bind_eq_some_iff] at h
    obtain ⟨t, hrun, hclose⟩ := h
    have hend := Scan.rest_of_close hclose
    have hread := Scan.run_sound hne hrun hend
    obtain ⟨tgs, te, trest⟩ := t
    simp only at hend hread
    subst hend
    rcases Scan.start_cases s with ⟨r, rfl, hstart⟩ | hstart
    · -- An ellipsis opens the text, and a tail follows it.
      rw [hstart] at hread
      rcases hread with ⟨gs, hgs, rfl, rfl⟩ | ⟨-, -, -, -, -, -, -, hnone, -, -⟩
      · obtain ⟨hlen, hx⟩ := (Scan.close_ellipsis [] _).1 hclose
        exact hx ▸ .ellipsis (.inl ⟨rfl, rfl⟩) (.inr hgs) hlen
      · cases hnone
    · rw [hstart] at hread
      rcases hread with ⟨gs, hgs, hgroups, rfl⟩ | ⟨l, r, ls, rs, hsplit, hl, hr, -, rfl, rfl⟩
      · -- There is no ellipsis, so there are eight groups.
        rw [List.nil_append] at hgroups
        subst hgroups
        have hx : tgs = x.groups := Scan.close_full.1 hclose
        rw [← hx]
        have height : tgs.length = 8 := hx ▸ x.length_groups
        rcases hgs.cases_quad with hg | ⟨q, -, rfl⟩ | ⟨u, v, hs, q, rfl, rfl, hu, hq⟩
        · exact .groups hg height
        · cases height
        · refine .quad hu ?_ hq
          have : q.groups.length = 2 := rfl
          rw [List.length_append] at height
          omega
      · simp only [List.nil_append, List.length_nil, Nat.zero_add] at hclose
        obtain ⟨hlen, hx⟩ := (Scan.close_ellipsis _ _).1 hclose
        simp only at hsplit
        subst hsplit
        exact hx ▸ .ellipsis (.inr hl) hr hlen

theorem parse?_of_isTail {s : Text} {x : Ipv6} (h : IsTail s x.groups) : parse? s = some x := by
  obtain ⟨c, t, rfl, hcolon⟩ := h.head
  have hstart := Scan.start_of_head (r := t) hcolon
  have hlen := x.length_groups
  rw [parse?_of_start (by simp [hstart]), hstart,
    Scan.run_tail h (by omega) (by simpa using Nat.le_of_eq hlen) (by simpa using hlen)]
  exact Scan.close_full.2 rfl

/-- An ellipsis in front of a tail, or alone. -/
theorem parse?_of_ellipsis_tail {r : Text} {rs : List UInt16} {x : Ipv6}
    (hr : r = [] ∧ rs = [] ∨ IsTail r rs) (hlen : rs.length ≤ 7)
    (hx : x.groups = List.replicate (8 - rs.length) 0 ++ rs) :
    parse? (':' :: ':' :: r) = some x := by
  rcases hr with ⟨rfl, rfl⟩ | hr
  · have : x = unspecified := ext_groups hx
    subst this
    rfl
  · obtain ⟨c, t, rfl, -⟩ := hr.head
    have hroom : rs.length ≤ 8 := by omega
    rw [parse?_of_start (by simp [Scan.start_ellipsis]), Scan.start_ellipsis,
      Scan.run_tail hr hroom (by simpa using hroom) (by simp)]
    exact (Scan.close_ellipsis [] _).2 ⟨by simpa using hlen, by simpa using hx.symm⟩

/-- An ellipsis behind groups, and a tail or nothing behind it. -/
theorem parse?_of_groups_ellipsis {l r : Text} {ls rs : List UInt16} {x : Ipv6}
    (hl : IsGroups l ls) (hr : r = [] ∧ rs = [] ∨ IsTail r rs) (hlen : ls.length + rs.length ≤ 7)
    (hx : x.groups = ls ++ List.replicate (8 - (ls.length + rs.length)) 0 ++ rs) :
    parse? (l ++ ':' :: ':' :: r) = some x := by
  obtain ⟨c, t, hc, hcolon⟩ := hl.isTail.head
  have hstart : Scan.start (l ++ ':' :: ':' :: r) = ⟨[], none, l ++ ':' :: ':' :: r⟩ := by
    rw [hc]
    exact Scan.start_of_head hcolon
  have hroom : 8 = ls.length + (8 - ls.length) := by omega
  rw [parse?_of_start (by simp [hstart]), hstart, hroom, Scan.run_head hl rfl rfl]
  simp only [List.nil_append, List.length_nil, Nat.zero_add]
  rcases hr with ⟨rfl, rfl⟩ | hr
  · have := (Scan.close_ellipsis _ []).2 ⟨hlen, hx.symm⟩
    simpa using this
  · obtain ⟨c, t, rfl, -⟩ := hr.head
    rw [if_neg (by simp), Scan.run_tail hr (by omega) (by simp; omega) (by simp)]
    exact (Scan.close_ellipsis _ _).2 ⟨hlen, hx.symm⟩

theorem parse?_of_isLiteral {s : Text} {x : Ipv6} (h : IsLiteral s x.groups) :
    parse? s = some x := by
  generalize hx : x.groups = gs at h
  cases h with
  | groups h _ => exact parse?_of_isTail (hx ▸ h.isTail)
  | quad h _ ht => exact parse?_of_isTail (hx ▸ h.isTail_quad ht)
  | ellipsis hl hr hlen =>
    rcases hl with ⟨rfl, rfl⟩ | hl
    · exact parse?_of_ellipsis_tail hr (by simpa using hlen) (by simpa using hx)
    · exact parse?_of_groups_ellipsis hl hr hlen hx

theorem parse?_eq_some_iff_isLiteral {s : Text} {x : Ipv6} :
    parse? s = some x ↔ IsLiteral s x.groups :=
  ⟨isLiteral_of_parse?, parse?_of_isLiteral⟩

/-- **Grammar.** The reader accepts exactly the IPv6 literals, each with the
groups that it stands for. -/
theorem accepts_iff_isLiteral (s : Text) :
    (∀ x, parse? s = some x ↔ IsLiteral s x.groups) ∧
      ((parse? s).isSome = true ↔ ∃ gs, IsLiteral s gs) := by
  refine ⟨fun x => parse?_eq_some_iff_isLiteral, ?_⟩
  constructor
  · intro h
    obtain ⟨x, hx⟩ := Option.isSome_iff_exists.1 h
    exact ⟨x.groups, isLiteral_of_parse? hx⟩
  · intro hlit
    obtain ⟨gs, h⟩ := hlit
    have hparse : parse? s = some ⟨gs, h.length_groups⟩ := parse?_of_isLiteral h
    rw [hparse]; rfl

/-- The ellipsis of `1:2:3:4:5:6:7::` stands for one group; one group more
leaves nothing for it. -/
example : (parse? "1:2:3:4:5:6:7::".toList).isSome = true ∧
    parse? "1:2:3:4:5:6:7:8::".toList = none := by
  decide

end NetDial.Ipv6
