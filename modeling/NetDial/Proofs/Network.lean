import NetDial.Network

/-!
# Names of networks

Which texts are names of networks, said without the reader of names, and how a
name and its network belong together: a network with a proper protocol is read
back from its text, and every network that is read has one. Two names of one
network differ only in a colon with nothing behind it.

**Results.**
* `lookup_plainNames_iff`, `lookup_ipNames_iff`: the tables of the reader agree with
  the texts of networks.
* `parse_text_of_plain`, `parse_withProtocol`: both forms of names are read.
* `parse_eq_ok_iff_isName`: there are no other names.
* `text_of_reading`: the text of the network that is read.
* `names_round_trip`: which texts are read, and what their networks look like.
-/
namespace NetDial.Network

/-- What stands behind the base of a name to pin the network to a family, or to
none. -/
def pins : List Text :=
  [[], ['4'], ['6']]

/-- The texts that are names of networks: a transport or `ip`, for any family or
for one; a type of local sockets; an `ip` network with a protocol. -/
inductive IsName : Text → Prop where
  | pinned {base pin : Text} (hbase : base ∈ ["tcp".toList, "udp".toList, "ip".toList])
      (hpin : pin ∈ pins) : IsName (base ++ pin)
  | ofUnix {s : Text} (h : s ∈ ["unix".toList, "unixgram".toList, "unixpacket".toList]) : IsName s
  | withProtocol {pin protocol : Text} (hpin : pin ∈ pins) (hcolon : ':' ∉ protocol) :
      IsName ("ip".toList ++ pin ++ ':' :: protocol)

/-- The protocol, if there is one, is not empty and has no colon. -/
def HasProperProtocol (n : Network) : Prop :=
  ∀ p, n.protocol? = some p → p ≠ [] ∧ ':' ∉ p

/-- The network of a family with this protocol, the empty one being none. -/
def ofProtocol (f : IpFamily) (p : Text) : Network :=
  ip f (if p = [] then none else some p)

variable {s p : Text} {n : Network} {f : IpFamily}

theorem mem_pins_iff {pin : Text} : pin ∈ pins ↔ ∃ f : IpFamily, pin = f.suffix := by
  constructor
  · intro h
    simp only [pins, List.mem_cons, List.not_mem_nil, or_false] at h
    rcases h with rfl | rfl | rfl
    · exact ⟨.any, rfl⟩
    · exact ⟨.v4, rfl⟩
    · exact ⟨.v6, rfl⟩
  · rintro ⟨f, rfl⟩
    cases f <;> decide

/-! ## The tables of the reader -/

/-- The reader's names without a colon are the texts of the networks without a
protocol. -/
theorem lookup_plainNames_iff : plainNames.lookup s = some n ↔ n.protocol? = none ∧ n.text = s := by
  constructor
  · intro h
    obtain ⟨before, after, htable, -⟩ := List.lookup_eq_some_iff.1 h
    have hmem : (s, n) ∈ plainNames := htable ▸ List.mem_append_right before List.mem_cons_self
    have hagrees : ∀ p ∈ plainNames, p.2.protocol? = none ∧ p.2.text = p.1 := by decide
    exact hagrees (s, n) hmem
  · intro h
    obtain ⟨hprotocol, rfl⟩ := h
    cases n with
    | tcp f => cases f <;> rfl
    | udp f => cases f <;> rfl
    | ip f protocol =>
      obtain rfl : protocol = none := hprotocol
      cases f <;> rfl
    | unix type => cases type <;> rfl

/-- The reader's names before a protocol are those of the `ip` networks. -/
theorem lookup_ipNames_iff {base : Text} :
    ipNames.lookup base = some f ↔ base = "ip".toList ++ f.suffix := by
  constructor
  · intro h
    obtain ⟨before, after, htable, -⟩ := List.lookup_eq_some_iff.1 h
    have hmem : (base, f) ∈ ipNames := htable ▸ List.mem_append_right before List.mem_cons_self
    have hagrees : ∀ p ∈ ipNames, p.1 = "ip".toList ++ p.2.suffix := by decide
    exact hagrees (base, f) hmem
  · intro h
    subst h
    cases f <;> rfl

/-! ## Names without a colon -/

theorem isName_text_of_plain (h : n.protocol? = none) : IsName n.text := by
  cases n with
  | tcp f => exact .pinned (by decide) (mem_pins_iff.2 ⟨f, rfl⟩)
  | udp f => exact .pinned (by decide) (mem_pins_iff.2 ⟨f, rfl⟩)
  | ip f protocol =>
    obtain rfl : protocol = none := h
    exact .pinned (by decide) (mem_pins_iff.2 ⟨f, rfl⟩)
  | unix type => cases type <;> exact .ofUnix (by decide)

theorem not_mem_text_of_plain (h : n.protocol? = none) : ':' ∉ n.text := by
  cases n with
  | tcp f => cases f <;> decide
  | udp f => cases f <;> decide
  | ip f protocol =>
    obtain rfl : protocol = none := h
    cases f <;> decide
  | unix type => cases type <;> decide

theorem parse_text_of_plain (h : n.protocol? = none) : parse n.text = .ok n := by
  have hcut : Text.splitLast? ':' n.text = none :=
    Text.splitLast?_eq_none_iff.2 (not_mem_text_of_plain h)
  have hplain : plainNames.lookup n.text = some n := lookup_plainNames_iff.2 ⟨h, rfl⟩
  simp only [parse, hcut, hplain]

/-! ## Names with a protocol -/

/-- What stands behind the only colon is the protocol. -/
theorem parse_withProtocol (f : IpFamily) (h : ':' ∉ p) :
    parse ("ip".toList ++ f.suffix ++ ':' :: p) = .ok (ofProtocol f p) := by
  have hcut : Text.splitLast? ':' ("ip".toList ++ f.suffix ++ ':' :: p) =
      some ("ip".toList ++ f.suffix, p) := Text.splitLast?_eq_some_iff.2 ⟨rfl, h⟩
  have hfamily : ipNames.lookup ("ip".toList ++ f.suffix) = some f := lookup_ipNames_iff.2 rfl
  simp only [parse, hcut, hfamily, ofProtocol]

/-! ## All texts -/

/-- How a text is read: as a name without a colon, as one with a protocol, or not
at all. -/
inductive Reading : Text → Except UnknownNetwork Network → Prop where
  | plain (n : Network) (h : n.protocol? = none) : Reading n.text (.ok n)
  | withProtocol (f : IpFamily) (p : Text) (h : ':' ∉ p) :
      Reading ("ip".toList ++ f.suffix ++ ':' :: p) (.ok (ofProtocol f p))
  | unknown (s : Text) (h : ¬ IsName s) : Reading s (.error ⟨s⟩)

/-- Every name is of one of the two forms. -/
theorem reading_of_isName (h : IsName s) : ∃ n, Reading s (.ok n) := by
  cases h with
  | @pinned base pin hbase hpin =>
    obtain ⟨f, rfl⟩ := mem_pins_iff.1 hpin
    simp only [List.mem_cons, List.not_mem_nil, or_false] at hbase
    rcases hbase with rfl | rfl | rfl
    · exact ⟨_, .plain (tcp f) rfl⟩
    · exact ⟨_, .plain (udp f) rfl⟩
    · exact ⟨_, .plain (ip f none) rfl⟩
  | ofUnix h =>
    simp only [List.mem_cons, List.not_mem_nil, or_false] at h
    rcases h with rfl | rfl | rfl
    · exact ⟨_, .plain (unix .stream) rfl⟩
    · exact ⟨_, .plain (unix .datagram) rfl⟩
    · exact ⟨_, .plain (unix .seqPacket) rfl⟩
  | withProtocol hpin hcolon =>
    obtain ⟨f, rfl⟩ := mem_pins_iff.1 hpin
    exact ⟨_, .withProtocol f _ hcolon⟩

theorem parse_of_reading {r : Network} (h : Reading s (.ok r)) : parse s = .ok r := by
  cases h with
  | plain n h => exact parse_text_of_plain h
  | withProtocol f p h => exact parse_withProtocol f h

theorem isName_of_parse (h : parse s = .ok n) : IsName s := by
  unfold parse at h
  split at h
  · rename_i base protocol hcut
    obtain ⟨rfl, hcolon⟩ := Text.splitLast?_eq_some_iff.1 hcut
    split at h
    · rename_i f hf
      obtain rfl := lookup_ipNames_iff.1 hf
      exact .withProtocol (mem_pins_iff.2 ⟨f, rfl⟩) hcolon
    · cases h
  · split at h
    · rename_i m hm
      obtain ⟨hprotocol, rfl⟩ := lookup_plainNames_iff.1 hm
      exact isName_text_of_plain hprotocol
    · cases h

theorem name_of_parse {e : UnknownNetwork} (h : parse s = .error e) : e = ⟨s⟩ := by
  unfold parse at h
  split at h
  · split at h
    · cases h
    · exact (Except.error.inj h).symm
  · split at h
    · cases h
    · exact (Except.error.inj h).symm

/-- Every text is read in one of these ways. -/
theorem reading_parse (s : Text) : Reading s (parse s) := by
  cases hparse : parse s with
  | ok n =>
    obtain ⟨m, hm⟩ := reading_of_isName (isName_of_parse hparse)
    rw [parse_of_reading hm, Except.ok.injEq] at hparse
    exact hparse ▸ hm
  | error e =>
    obtain rfl := name_of_parse hparse
    refine .unknown s fun hname => ?_
    obtain ⟨m, hm⟩ := reading_of_isName hname
    rw [parse_of_reading hm] at hparse
    cases hparse

theorem parse_eq_ok_iff_isName : (∃ n, parse s = .ok n) ↔ IsName s := by
  constructor
  · intro h
    obtain ⟨n, hn⟩ := h
    exact isName_of_parse hn
  · intro h
    obtain ⟨n, hn⟩ := reading_of_isName h
    exact ⟨n, parse_of_reading hn⟩

/-! ## The text of what is read -/

theorem text_ofProtocol (f : IpFamily) (p : Text) :
    (ofProtocol f p).text =
      if p = [] then "ip".toList ++ f.suffix else "ip".toList ++ f.suffix ++ ':' :: p := by
  unfold ofProtocol
  split
  · rfl
  · rfl

theorem hasProperProtocol_ofProtocol (f : IpFamily) (h : ':' ∉ p) :
    (ofProtocol f p).HasProperProtocol := by
  intro q hq
  unfold ofProtocol at hq
  split at hq
  · cases hq
  · rename_i hne
    cases hq
    exact ⟨hne, h⟩

/-- A network with a proper protocol is read back from its text. -/
theorem parse_text (h : n.HasProperProtocol) : parse n.text = .ok n := by
  cases hprotocol : n.protocol? with
  | none => exact parse_text_of_plain hprotocol
  | some p =>
    obtain ⟨hne, hcolon⟩ := h p hprotocol
    cases n with
    | ip f protocol =>
      obtain rfl : protocol = some p := hprotocol
      have hparse := parse_withProtocol f hcolon
      rw [ofProtocol, if_neg hne] at hparse
      exact hparse
    | tcp f | udp f | unix type => cases hprotocol

/-- A text of which a network is read is the text of the network, or has a colon
more at its end. -/
theorem text_of_reading (h : Reading s (.ok n)) :
    n.HasProperProtocol ∧ (s.getLast? = some ':' → n.protocol? = none) ∧
      n.text = if s.getLast? = some ':' then s.dropLast else s := by
  cases h with
  | plain n h =>
    have hend : n.text.getLast? ≠ some ':' :=
      fun hlast => not_mem_text_of_plain h (List.mem_of_getLast? hlast)
    refine ⟨fun p hp => ?_, fun _ => h, (if_neg hend).symm⟩
    rw [h] at hp
    cases hp
  | withProtocol f p h =>
    refine ⟨hasProperProtocol_ofProtocol f h, ?_⟩
    rw [text_ofProtocol]
    cases p with
    | nil =>
      rw [if_pos rfl, if_pos List.getLast?_concat, List.dropLast_concat]
      exact ⟨fun _ => rfl, rfl⟩
    | cons c p =>
      have hend : ("ip".toList ++ f.suffix ++ ':' :: c :: p).getLast? ≠ some ':' := by
        have hlast := List.getLast?_eq_some_getLast (List.cons_ne_nil c p)
        rw [List.getLast?_append, List.getLast?_cons_cons, hlast, Option.some_or, ← hlast]
        exact fun hcolon => h (List.mem_of_getLast? hcolon)
      rw [if_neg (List.cons_ne_nil c p), if_neg hend]
      exact ⟨fun hlast => absurd hlast hend, rfl⟩

/-- **Names.** A text is read as a network exactly if it is a name. The text of the
network is then the name itself, or the name without a colon at its end, and the
protocol is proper. A network with a proper protocol is read back from its text,
and a text that is no name is reported as it is. -/
theorem names_round_trip (s : Text) (n : Network) :
    ((∃ m, parse s = .ok m) ↔ IsName s) ∧
    (parse s = .ok n →
      n.HasProperProtocol ∧ (s.getLast? = some ':' → n.protocol? = none) ∧
        n.text = if s.getLast? = some ':' then s.dropLast else s) ∧
    (n.HasProperProtocol → parse n.text = .ok n) ∧
    ∀ e, parse s = .error e → e.name = s := by
  refine ⟨parse_eq_ok_iff_isName, fun hparse => ?_, parse_text, fun e hparse => ?_⟩
  · exact text_of_reading (hparse ▸ reading_parse s)
  · rw [name_of_parse hparse]

/-- A colon with nothing behind it is dropped; the protocol stands behind the only
colon; and a protocol is no part of other names. -/
theorem names_round_trip_protocols :
    (parse "ip6:".toList = .ok (ip .v6 none) ∧ (ip .v6 none).text = "ip6".toList) ∧
    ((ip .v4 (some "icmp".toList)).HasProperProtocol ∧
      parse "ip4:icmp".toList = .ok (ip .v4 (some "icmp".toList))) ∧
    (parse "tcp:1".toList = .error ⟨"tcp:1".toList⟩ ∧
      (⟨"tcp:1".toList⟩ : UnknownNetwork).name = "tcp:1".toList) := by
  have hdropped : parse "ip6:".toList = .ok (ip .v6 none) := rfl
  have hproper : (ip .v4 (some "icmp".toList)).HasProperProtocol := by
    rintro p ⟨⟩
    decide
  have hunknown : parse "tcp:1".toList = .error ⟨"tcp:1".toList⟩ := rfl
  exact ⟨⟨hdropped, ((names_round_trip _ _).2.1 hdropped).2.2⟩,
    ⟨hproper, (names_round_trip [] _).2.2.1 hproper⟩,
    hunknown, (names_round_trip _ (tcp .any)).2.2.2 _ hunknown⟩

end NetDial.Network
