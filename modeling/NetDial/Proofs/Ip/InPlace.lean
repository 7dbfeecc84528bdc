import NetDial.Proofs.Ip.Checked
import NetDial.Proofs.Ip.Ipv6Reader

/-!
# IPv6 literals in place

An IPv6 literal can be read in place: an index goes over its bytes, and the octets of
the address are written into a buffer of sixteen, two by two, or four at once from a
dotted quad at the end. The place of the ellipsis is kept, and the octets behind it
are moved to the end of the buffer when the bytes are read.

As the scanners of digits do, each step says whether it can be done (`Checked`):
besides looking at a byte, taking a part of the bytes or of the buffer and writing
over a part of it need places that exist, and a group must fit 16 bits.

**Results.**
* `index_turn`: every turn of the loop moves the index forward, so that the loop
  ends (`Buffer.run`).
* `between_append`, `overwrite_append`: the parts of a buffer that can be taken and
  written.
* `openGap_append`: the gap for the ellipsis is in the buffer.
-/
namespace NetDial.Ipv6

open Checked
open Ip (tailAt indexOf)
open Text (ofBytes)

/-! ## Places in a buffer -/

/-- Writes over what stands from a place on. -/
def overwrite (octets : List UInt8) (place : Nat) (new : List UInt8) : Checked (List UInt8) :=
  if place + new.length ≤ octets.length then
    .ok (octets.take place ++ new ++ octets.drop (place + new.length))
  else .error .fault

/-- What stands between two places. -/
def between (octets : List UInt8) (start stop : Nat) : Checked (List UInt8) :=
  if start ≤ stop ∧ stop ≤ octets.length then .ok ((octets.take stop).drop start)
  else .error .fault

/-- The groups that octets fill two by two. -/
def groupsOf : List UInt8 → List UInt16
  | hi :: lo :: octets => groupOfOctets hi lo :: groupsOf octets
  | _ => []

/-- The address that fills a buffer. -/
def ofOctets (octets : List UInt8) : Checked Ipv6 :=
  match ofGroups? (groupsOf octets) with
  | some x => .ok x
  | none => .error .fault

/-! ## The reader -/

/-- The state of reading: the octets of the address, the place of the ellipsis
among them, how many are filled, and the index of the byte that is next. -/
structure Buffer where
  octets : List UInt8
  ellipsis : Option Nat
  filled : Nat
  index : Nat

/-- How one turn of the loop ends: another one follows, or none. -/
inductive Turn where
  | more (b : Buffer)
  | finished (b : Buffer)

/-- The state after a turn. -/
def Turn.buffer : Turn → Buffer
  | more b => b
  | finished b => b

namespace Buffer

/-- The state before the loop: an ellipsis may open the literal. -/
def start (s : List UInt8) : Checked Buffer := do
  let empty : Buffer := ⟨List.replicate 16 0, none, 0, 0⟩
  if 2 ≤ s.length then
    let c ← charAt s 0
    let d ← charAt s 1
    if c = ':' ∧ d = ':' then return { empty with ellipsis := some 0, index := 2 }
    else return empty
  else return empty

/-- There is a dot at an index. -/
def isDotAt (s : List UInt8) (i : Nat) : Checked Bool :=
  if i < s.length then do
    let c ← charAt s i
    return c == '.'
  else return false

/-- Takes the last four octets from a dotted quad. -/
def takeQuad (s : List UInt8) (b : Buffer) : Checked Turn :=
  if b.ellipsis.isNone ∧ b.filled ≠ 12 then reject
  else if 16 < b.filled + 4 then reject
  else do
    let behind ← between s b.index s.length
    let x ← quad behind
    let octets ← overwrite b.octets b.filled [x.a, x.b, x.c, x.d]
    return .finished ⟨octets, b.ellipsis, b.filled + 4, s.length⟩

/-- Takes two octets from a group whose value was read up to an index. -/
def takeGroup (b : Buffer) (n stop : Nat) : Checked Buffer := do
  let n ← fits UInt16.size n
  let g := UInt16.ofNat n
  let octets ← overwrite b.octets b.filled [highOctet g]
  let octets ← overwrite octets (b.filled + 1) [lowOctet g]
  return ⟨octets, b.ellipsis, b.filled + 2, stop⟩

/-- Passes the colon or the ellipsis behind a group. -/
def passColon (s : List UInt8) (b : Buffer) : Checked Turn :=
  if b.index = s.length then return .finished b
  else do
    let c ← charAt s b.index
    if c ≠ ':' ∨ b.index + 1 = s.length then reject
    else
      let d ← charAt s (b.index + 1)
      if d = ':' then
        if b.ellipsis.isSome then reject
        else
          let b := { b with ellipsis := some b.filled, index := b.index + 2 }
          if b.index = s.length then return .finished b else return .more b
      else return .more { b with index := b.index + 1 }

/-- One turn of the loop. -/
def turn (s : List UInt8) (b : Buffer) : Checked Turn := do
  let (n, stop) ← hexAt s b.index
  let dot ← isDotAt s stop
  if dot then takeQuad s b
  else
    let b ← takeGroup b n stop
    passColon s b

theorem index_takeQuad {s : List UInt8} {b : Buffer} {t : Turn} (h : takeQuad s b = .ok t) :
    t.buffer.index = s.length := by
  unfold takeQuad at h
  split at h
  · cases h
  · split at h
    · cases h
    · simp only [bind_eq_ok_iff] at h
      obtain ⟨behind, -, x, -, octets, -, hturn⟩ := h
      cases hturn
      rfl

theorem index_takeGroup {b b' : Buffer} {n stop : Nat} (h : b.takeGroup n stop = .ok b') :
    b'.index = stop := by
  unfold takeGroup at h
  simp only [bind_eq_ok_iff] at h
  obtain ⟨n, -, octets, -, octets', -, hgroup⟩ := h
  cases hgroup
  rfl

theorem index_passColon {s : List UInt8} {b : Buffer} {t : Turn} (hb : b.index ≤ s.length)
    (h : passColon s b = .ok t) : b.index ≤ t.buffer.index ∧ t.buffer.index ≤ s.length := by
  unfold passColon at h
  split at h
  · cases h
    exact ⟨Nat.le_refl _, hb⟩
  · simp only [bind_eq_ok_iff] at h
    obtain ⟨c, -, h⟩ := h
    split at h
    · cases h
    · rename_i hcolon
      simp only [bind_eq_ok_iff] at h
      obtain ⟨d, -, h⟩ := h
      have hnext : b.index + 1 < s.length := by omega
      split at h
      · split at h
        · cases h
        · split at h
          · cases h
            exact ⟨Nat.le_add_right _ _, hnext⟩
          · cases h
            exact ⟨Nat.le_add_right _ _, hnext⟩
      · cases h
        exact ⟨Nat.le_add_right _ _, Nat.le_of_lt hnext⟩

/-- Every turn moves the index forward. -/
theorem index_turn {s : List UInt8} {b : Buffer} {t : Turn} (h : turn s b = .ok t) :
    b.index < t.buffer.index ∧ t.buffer.index ≤ s.length := by
  unfold turn at h
  simp only [bind_eq_ok_iff] at h
  obtain ⟨⟨n, stop⟩, hhex, dot, -, h⟩ := h
  obtain ⟨-, hless, hstop⟩ := of_hexAt hhex
  cases dot with
  | true =>
    rw [index_takeQuad h]
    exact ⟨Nat.lt_of_lt_of_le hless hstop, Nat.le_refl _⟩
  | false =>
    simp only [Bool.false_eq_true, if_false, bind_eq_ok_iff] at h
    obtain ⟨b', hgroup, hcolon⟩ := h
    have hindex := index_takeGroup hgroup
    have hpass := index_passColon (hindex ▸ hstop) hcolon
    rw [hindex] at hpass
    exact ⟨Nat.lt_of_lt_of_le hless hpass.1, hpass.2⟩

/-- The loop: turns until the octets are filled or a turn is the last one. -/
def run (s : List UInt8) (b : Buffer) : Checked Buffer :=
  if b.filled < 16 then
    match _ : turn s b with
    | .error e => .error e
    | .ok (.finished b') => .ok b'
    | .ok (.more b') => run s b'
  else .ok b
termination_by s.length - b.index
decreasing_by
  rename_i h
  have := index_turn h
  simp only [Turn.buffer] at this
  omega

/-- Moves the filled octets behind the ellipsis to the end and puts zeros in their
place. -/
def openGap (octets : List UInt8) (ellipsis filled : Nat) : Checked (List UInt8) := do
  let gap ← minus 16 filled
  let moved ← between octets ellipsis filled
  let octets ← overwrite octets (ellipsis + gap) moved
  overwrite octets ellipsis (List.replicate gap 0)

/-- The address that was read, if all bytes were: sixteen octets, or fewer and an
ellipsis. -/
def close (s : List UInt8) (b : Buffer) : Checked Ipv6 :=
  if b.index ≠ s.length then reject
  else if b.filled < 16 then
    match b.ellipsis with
    | none => reject
    | some e => openGap b.octets e b.filled >>= ofOctets
  else if b.ellipsis.isSome then reject
  else ofOctets b.octets

end Buffer

/-- The address of the bytes of an IPv6 literal without zone. -/
def read (s : List UInt8) : Checked Ipv6 := do
  let b ← Buffer.start s
  if b.ellipsis = some 0 ∧ b.index = s.length then return unspecified
  else
    let b ← b.run s
    b.close s

/-! ## Places in lists -/

theorem between_append (xs ys zs : List UInt8) :
    between (xs ++ ys ++ zs) xs.length (xs.length + ys.length) = .ok ys := by
  rw [between, if_pos (by simp), ← List.length_append, List.take_left, List.drop_left]

theorem overwrite_append (xs zs : List UInt8) {ys new : List UInt8} (h : new.length = ys.length) :
    overwrite (xs ++ ys ++ zs) xs.length new = .ok (xs ++ new ++ zs) := by
  have hfront : (xs ++ ys ++ zs).take xs.length = xs := by
    rw [List.append_assoc, List.take_left]
  have hback : (xs ++ ys ++ zs).drop (xs.length + ys.length) = zs := by
    rw [← List.length_append, List.drop_left]
  rw [overwrite, if_pos (by simp; omega), h, hfront, hback]

theorem overwrite_two (xs zs : List UInt8) (x y a b : UInt8) :
    (overwrite (xs ++ [x, y] ++ zs) xs.length [a] >>= fun octets =>
      overwrite octets (xs.length + 1) [b]) = .ok (xs ++ [a, b] ++ zs) := by
  have hfirst : overwrite (xs ++ [x] ++ y :: zs) xs.length [a] = .ok (xs ++ [a] ++ y :: zs) :=
    overwrite_append xs (y :: zs) rfl
  have hsecond : overwrite (xs ++ [a] ++ [y] ++ zs) (xs ++ [a]).length [b] =
      .ok (xs ++ [a] ++ [b] ++ zs) :=
    overwrite_append (xs ++ [a]) zs rfl
  simp only [List.append_assoc, List.cons_append, List.nil_append, List.length_append,
    List.length_singleton] at hfirst hsecond ⊢
  rw [hfirst, ok_bind, hsecond]

/-- The octets behind the ellipsis may overlap the place that they move to. -/
theorem openGap_append {xs ys : List UInt8} {gap : Nat} (h : xs.length + ys.length + gap = 16) :
    Buffer.openGap (xs ++ ys ++ List.replicate gap 0) xs.length (xs.length + ys.length) =
      .ok (xs ++ List.replicate gap 0 ++ ys) := by
  have hgap : 16 - (xs.length + ys.length) = gap := by omega
  obtain ⟨us, vs, hcut, hus, hvs⟩ :
      ∃ us vs, ys ++ List.replicate gap 0 = us ++ vs ∧ us.length = gap ∧ vs.length = ys.length :=
    ⟨_, _, (List.take_append_drop gap _).symm, by simp, by simp⟩
  have hmove : overwrite (xs ++ ys ++ List.replicate gap 0) (xs.length + gap) ys =
      .ok (xs ++ us ++ ys) := by
    have := overwrite_append (xs ++ us) [] hvs.symm
    rwa [List.append_nil, List.append_nil, List.append_assoc xs us vs, ← hcut,
      ← List.append_assoc, List.length_append, hus] at this
  have hfill : overwrite (xs ++ us ++ ys) xs.length (List.replicate gap 0) =
      .ok (xs ++ List.replicate gap 0 ++ ys) :=
    overwrite_append xs ys (by rw [List.length_replicate, hus])
  rw [Buffer.openGap, minus_of_le (by omega), ok_bind, hgap, between_append, ok_bind, hmove,
    ok_bind, hfill]

end NetDial.Ipv6
