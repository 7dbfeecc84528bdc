import NetDial.Proofs.Ip.Scan
import NetDial.Service

/-!
# Ports

What a text is read as where a port stands. A run of digits is a number, whatever
its length, and no service is looked up for it. Any other text is looked up, once,
and the port is made of the answer. Either number is a port if it fits 16 bits.

A table of services gives the same answer whenever it is asked. That a service is
looked up once or not at all is therefore said for `readPort`, which is given an
action of any monad to look up a service: it may keep a record of what it was
asked, or answer differently the next time. With a table as this action,
`readPort` is `parsePort`.

**Results.**
* `isPortOf_iff`: what becomes of a number.
* `readPort_run`, `readPort_name`: the two ways to read a port.
* `parsePort_decimal`: the decimal text of a port is that port, on every
  transport and whatever services there are.
* `port_read_exactly`: what a port is read as, and what is looked up for it.
-/
namespace NetDial

open Text (decimalValue)

/-- A run of decimal digits, and at least one of them. -/
def IsNumeric (s : Text) : Prop :=
  s ≠ [] ∧ ∀ c ∈ s, c.isDigit = true

/-- What becomes of a number where a port is wanted: a number of 16 bits is the
port, and a larger one is refused with the text that stands there. -/
inductive IsPortOf (port : Text) : Nat → Except Error UInt16 → Prop where
  | fits (v : UInt16) : IsPortOf port v.toNat (.ok v)
  | tooLarge {n : Nat} (h : 65535 < n) :
      IsPortOf port n (.error (.root (.address ⟨.invalidPort, port⟩)))

/-- Reads a port, where a service is looked up by an action. -/
def readPort {m : Type → Type} [Monad m] (t : Transport) (port : Text)
    (lookUp : Transport → Text → m (Except Error Nat)) : m (Except Error UInt16) :=
  if Text.isDecimal port then
    match Ip.scanDecimal? port with
    | some (n, _) => return portOfNat n.toNat port
    | none => return .error (.root (.address ⟨.invalidPort, port⟩))
  else do
    match ← lookUp t port with
    | .ok n => return portOfNat n port
    | .error e => return .error e

variable {t : Transport} {port : Text} {services : Services}

/-- A table is looked up in without an effect. -/
theorem readPort_id (t : Transport) (port : Text) (services : Services) :
    readPort (m := Id) t port services = parsePort t port services := by
  unfold readPort parsePort
  split
  · cases Ip.scanDecimal? port with
    | some p => rfl
    | none => rfl
  · rfl

theorem isDecimal_iff {s : Text} : Text.isDecimal s = true ↔ IsNumeric s := by
  simp [Text.isDecimal, IsNumeric]

theorem isPortOf_iff {n : Nat} {r : Except Error UInt16} :
    IsPortOf port n r ↔ portOfNat n port = r := by
  unfold portOfNat
  constructor
  · intro h
    cases h with
    | fits v =>
      have hlt : v.toNat < 65536 := v.toNat_lt
      rw [if_pos hlt, UInt16.ofNat_toNat]
    | tooLarge h => rw [if_neg (by omega)]
  · rintro rfl
    split
    · rename_i hlt
      have hn : (UInt16.ofNat n).toNat = n := by
        rw [UInt16.toNat_ofNat']
        omega
      have hfits : IsPortOf port _ _ := .fits (UInt16.ofNat n)
      rwa [hn] at hfits
    · exact .tooLarge (by omega)

/-! ## Numbers -/

/-- A number is read without looking up a service, and has its decimal value. -/
theorem readPort_run (t : Transport) (h : IsNumeric port) :
    ∃ r, IsPortOf port (decimalValue port) r ∧
      ∀ {m : Type → Type} [Monad m] (lookUp : Transport → Text → m (Except Error Nat)),
        readPort t port lookUp = pure r := by
  have hrun := isDecimal_iff.2 h
  have hscan := Ip.scanDecimal?_append h.1 h.2 [] (by simp)
  rw [List.append_nil] at hscan
  have hsize : Ip.decimalLimit.toNat = 16777215 := rfl
  by_cases hlimit : decimalValue port < Ip.decimalLimit.toNat
  · have hword : (UInt32.ofNat (decimalValue port)).toNat = decimalValue port := by
      rw [UInt32.toNat_ofNat']
      omega
    refine ⟨portOfNat (decimalValue port) port, isPortOf_iff.2 rfl, fun lookUp => ?_⟩
    simp only [readPort, hrun, if_true, hscan, if_pos hlimit, hword]
  · -- The reader gives up, which it does far above the ports.
    refine ⟨_, .tooLarge (by omega), fun lookUp => ?_⟩
    simp only [readPort, hrun, if_true, hscan, if_neg hlimit]

/-! ## Names -/

/-- The port of the answer to a lookup. -/
def portOfAnswer (port : Text) : Except Error Nat → Except Error UInt16
  | .ok n => portOfNat n port
  | .error e => .error e

/-- A name is looked up once and nothing else is done. -/
theorem readPort_name {m : Type → Type} [Monad m] [LawfulMonad m] (t : Transport)
    (h : ¬ IsNumeric port) (lookUp : Transport → Text → m (Except Error Nat)) :
    readPort t port lookUp = portOfAnswer port <$> lookUp t port := by
  have hname : ¬ Text.isDecimal port = true := fun hrun => h (isDecimal_iff.1 hrun)
  rw [readPort, if_neg hname, map_eq_pure_bind]
  refine bind_congr fun answer => ?_
  cases answer with
  | ok n => rfl
  | error e => rfl

/-! ## Ports -/

theorem parsePort_decimal (t : Transport) (port : UInt16) (services : Services) :
    parsePort t (Text.decimal port.toNat) services = .ok port := by
  have hrun : IsNumeric (Text.decimal port.toNat) :=
    ⟨Text.decimal_ne_nil _, Text.decimal_isDigit _⟩
  obtain ⟨r, hr, hread⟩ := readPort_run t hrun
  rw [Text.decimalValue_decimal, isPortOf_iff, isPortOf_iff.1 (.fits port)] at hr
  rw [← readPort_id, hread, ← hr]
  rfl

/-- **Ports.** A run of digits is read as the number it stands for, and nothing is
looked up. For any other text, the text is looked up once; the port is made of the
answer, and an error is passed on. Either number is a port if it fits 16 bits, and
else refused with the text. -/
theorem port_read_exactly {m : Type → Type} [Monad m] [LawfulMonad m] (t : Transport) (port : Text)
    (services : Services) (lookUp : Transport → Text → m (Except Error Nat)) :
    (IsNumeric port → ∃ r, IsPortOf port (decimalValue port) r ∧
      parsePort t port services = r ∧ readPort t port lookUp = pure r) ∧
    (¬ IsNumeric port → ∃ made : Except Error Nat → Except Error UInt16,
      parsePort t port services = made (services t port) ∧
      readPort t port lookUp = made <$> lookUp t port ∧
      (∀ e, made (.error e) = .error e) ∧ ∀ n, IsPortOf port n (made (.ok n))) := by
  refine ⟨fun h => ?_, fun h => ?_⟩
  · obtain ⟨r, hr, hread⟩ := readPort_run t h
    exact ⟨r, hr, (readPort_id t port services).symm.trans (hread (m := Id) services),
      hread lookUp⟩
  · refine ⟨portOfAnswer port, ?_, readPort_name t h lookUp, fun e => rfl,
      fun n => isPortOf_iff.2 rfl⟩
    rw [← readPort_id, readPort_name t h]
    rfl

/-- With a record of what is looked up: zeros in front of a number do not count, and
a service is looked up by its name as it is written. -/
theorem port_read_exactly_recorded :
    let recorded : Transport → Text → StateM (List (Transport × Text)) (Except Error Nat) :=
      fun t s => do
        modify (· ++ [(t, s)])
        return Services.wellKnown t s
    (IsNumeric "00443".toList ∧
      (readPort .tcp "00443".toList recorded).run [] = (.ok 443, [])) ∧
    (¬ IsNumeric "HTTPS".toList ∧
      (readPort .tcp "HTTPS".toList recorded).run [] = (.ok 443, [(.tcp, "HTTPS".toList)])) := by
  intro recorded
  have hnumber : IsNumeric "00443".toList := isDecimal_iff.1 rfl
  have hname : ¬ IsNumeric "HTTPS".toList :=
    fun h => absurd (isDecimal_iff.2 h) (by decide)
  refine ⟨⟨hnumber, ?_⟩, hname, ?_⟩
  · obtain ⟨r, hr, -, hread⟩ :=
      (port_read_exactly .tcp "00443".toList Services.wellKnown recorded).1 hnumber
    rw [hread, ← isPortOf_iff.1 hr]
    rfl
  · obtain ⟨made, -, hread, -, hmade⟩ :=
      (port_read_exactly .tcp "HTTPS".toList Services.wellKnown recorded).2 hname
    have hknown : Services.wellKnown .tcp "HTTPS".toList = .ok 443 := rfl
    have h443 : made (.ok 443) = .ok 443 := (isPortOf_iff.1 (hmade 443)).symm
    rw [hread]
    show (made (Services.wellKnown .tcp "HTTPS".toList), _) = _
    rw [hknown, h443]
    rfl

end NetDial
