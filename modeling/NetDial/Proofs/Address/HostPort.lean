import NetDial.Address.HostPort

/-!
# Endpoints

Which texts split into host and port, said without a splitter: the host stands
bare or in brackets before a colon and the port. Neither part has brackets of
its own, a port has no colon, and a bare host has none either.

Host and port are joined to an endpoint whenever they are parts of one. It need
not be the one that they were split from: joining puts brackets around a host
with a colon or a percent sign and around no other.

**Results.**
* `splitHostPort_eq_ok_iff`: exactly the endpoints are split, each into its
  parts.
* `IsEndpoint.joinHostPort_eq_iff`: when joining gives back the text that was
  split.
* `joined_splits_back`: what is split again after it was joined.
-/
namespace NetDial

/-- The text has no bracket. -/
structure NoBrackets (s : Text) : Prop where
  opening : '[' ∉ s
  closing : ']' ∉ s

/-- A text that names this host and this port. -/
inductive IsEndpoint : Text → Text → Text → Prop where
  | plain {host port : Text} (hhost : NoBrackets host) (hport : NoBrackets port)
      (hcolon : ':' ∉ host) (hlast : ':' ∉ port) : IsEndpoint (host ++ ':' :: port) host port
  | bracketed {host port : Text} (hhost : NoBrackets host) (hport : NoBrackets port)
      (hlast : ':' ∉ port) : IsEndpoint ('[' :: (host ++ ']' :: ':' :: port)) host port

theorem IsEndpoint.noBrackets {s host port : Text} (h : IsEndpoint s host port) :
    NoBrackets host := by
  cases h with
  | plain hhost => exact hhost
  | bracketed hhost => exact hhost

theorem IsEndpoint.port {s host port : Text} (h : IsEndpoint s host port) :
    NoBrackets port ∧ ':' ∉ port := by
  cases h with
  | plain _ hport _ hlast => exact ⟨hport, hlast⟩
  | bracketed _ hport hlast => exact ⟨hport, hlast⟩

/-! ## What is split is an endpoint -/

theorem isEndpoint_of_splitPlain {host port h p : Text} (hlast : ':' ∉ port)
    (hsplit : splitPlain host port = .ok (h, p)) : IsEndpoint (host ++ ':' :: port) h p := by
  unfold splitPlain at hsplit
  split at hsplit
  · cases hsplit
  · rename_i hcolon
    split at hsplit
    · cases hsplit
    · rename_i hopen
      split at hsplit
      · cases hsplit
      · rename_i hclose
        cases hsplit
        rw [not_or] at hopen hclose
        exact .plain ⟨hopen.1, hclose.1⟩ ⟨hopen.2, hclose.2⟩ hcolon hlast

theorem isEndpoint_of_splitBracketed {inner port h p : Text} (hlast : ':' ∉ port)
    (hsplit : splitBracketed inner port = .ok (h, p)) : IsEndpoint ('[' :: inner) h p := by
  unfold splitBracketed at hsplit
  split at hsplit
  · cases hsplit
  · cases hsplit
  · rename_i host c after hcut
    obtain ⟨rfl, hclose⟩ := Text.splitFirst?_eq_some_iff.1 hcut
    split at hsplit
    · cases hsplit
    · rename_i hport
      split at hsplit
      · cases hsplit
      · rename_i hopen
        split at hsplit
        · cases hsplit
        · rename_i hclose'
          cases hsplit
          rw [ne_eq, Classical.not_not, List.cons.injEq] at hport
          obtain ⟨rfl, rfl⟩ := hport
          simp only [List.mem_append, List.mem_cons, not_or] at hopen
          exact .bracketed ⟨hopen.1, hclose⟩ ⟨hopen.2.2.2, hclose'⟩ hlast

theorem isEndpoint_of_splitHostPort {s host port : Text}
    (h : splitHostPort s = .ok (host, port)) : IsEndpoint s host port := by
  have hfault : splitHostPortFault s = .ok (host, port) := by
    unfold splitHostPort at h
    cases hf : splitHostPortFault s with
    | error e => rw [hf] at h; cases h
    | ok parts => rw [hf] at h; exact congrArg Except.ok (Except.ok.inj h)
  unfold splitHostPortFault at hfault
  split at hfault
  · cases hfault
  · rename_i before last inner hcut
    exact isEndpoint_of_splitBracketed (Text.splitLast?_eq_some_iff.1 hcut).2 hfault
  · rename_i before last _ hcut
    obtain ⟨rfl, hlast⟩ := Text.splitLast?_eq_some_iff.1 hcut
    exact isEndpoint_of_splitPlain hlast hfault

/-! ## Endpoints are split -/

theorem splitPlain_of_noBrackets {host port : Text} (hhost : NoBrackets host)
    (hport : NoBrackets port) (hcolon : ':' ∉ host) : splitPlain host port = .ok (host, port) := by
  unfold splitPlain
  rw [if_neg hcolon, if_neg (not_or.2 ⟨hhost.opening, hport.opening⟩),
    if_neg (not_or.2 ⟨hhost.closing, hport.closing⟩)]

theorem splitBracketed_of_noBrackets {host port : Text} (hhost : NoBrackets host)
    (hport : NoBrackets port) :
    splitBracketed (host ++ ']' :: ':' :: port) port = .ok (host, port) := by
  have hcut : Text.splitFirst? ']' (host ++ ']' :: ':' :: port) = some (host, ':' :: port) :=
    Text.splitFirst?_eq_some_iff.2 ⟨rfl, hhost.closing⟩
  have hopen : '[' ∉ host ++ ']' :: ':' :: port := by
    simp [hhost.opening, hport.opening]
  simp only [splitBracketed, hcut]
  rw [if_neg (by simp), if_neg hopen, if_neg hport.closing]

theorem splitHostPort_of_isEndpoint {s host port : Text} (h : IsEndpoint s host port) :
    splitHostPort s = .ok (host, port) := by
  have hfault : splitHostPortFault s = .ok (host, port) := by
    unfold splitHostPortFault
    cases h with
    | plain hhost hport hcolon hlast =>
      rw [Text.splitLast?_eq_some_iff.2 ⟨rfl, hlast⟩]
      cases host with
      | nil => exact splitPlain_of_noBrackets hhost hport hcolon
      | cons c host =>
        have hc : c ≠ '[' := fun hc => hhost.opening (hc ▸ List.mem_cons_self)
        rw [List.cons_append]
        split
        · rename_i h; cases h
        · rename_i hs
          exact absurd (List.cons.inj hs).1 hc
        · cases ‹some (c :: host, port) = some _›
          exact splitPlain_of_noBrackets hhost hport hcolon
    | bracketed hhost hport hlast =>
      have hcut : Text.splitLast? ':' ('[' :: (host ++ ']' :: ':' :: port)) =
          some ('[' :: (host ++ [']']), port) :=
        Text.splitLast?_eq_some_iff.2 ⟨by simp, hlast⟩
      rw [hcut]
      exact splitBracketed_of_noBrackets hhost hport
  unfold splitHostPort
  rw [hfault]
  rfl

theorem splitHostPort_eq_ok_iff {s host port : Text} :
    splitHostPort s = .ok (host, port) ↔ IsEndpoint s host port :=
  ⟨isEndpoint_of_splitHostPort, splitHostPort_of_isEndpoint⟩

/-! ## Joining -/

variable {s host port : Text}

theorem joinHostPort_of_marked (h : ':' ∈ host ∨ '%' ∈ host) (port : Text) :
    joinHostPort host port = '[' :: (host ++ ']' :: ':' :: port) := by
  have hjoin : joinHostPort host port = '[' :: host ++ "]:".toList ++ port := if_pos h
  rw [hjoin]
  simp

theorem joinHostPort_of_bare (h : ¬ (':' ∈ host ∨ '%' ∈ host)) (port : Text) :
    joinHostPort host port = host ++ ':' :: port :=
  if_neg h

theorem isEndpoint_joinHostPort (hhost : NoBrackets host) (hport : NoBrackets port)
    (hlast : ':' ∉ port) : IsEndpoint (joinHostPort host port) host port := by
  by_cases h : ':' ∈ host ∨ '%' ∈ host
  · rw [joinHostPort_of_marked h]
    exact .bracketed hhost hport hlast
  · rw [joinHostPort_of_bare h]
    exact .plain hhost hport (fun hcolon => h (.inl hcolon)) hlast

/-- A text without brackets of its own does not begin with one, and neither does
what begins with it. -/
theorem NoBrackets.head?_ne (h : NoBrackets host) (port : Text) :
    (host ++ ':' :: port).head? ≠ some '[' := by
  cases host with
  | nil => simp
  | cons c host =>
    have hc : c ≠ '[' := fun hc => h.opening (hc ▸ List.mem_cons_self)
    simpa using hc

/-- Joining gives back the text that was split, if that has brackets exactly when
joining puts them. -/
theorem IsEndpoint.joinHostPort_eq_iff (h : IsEndpoint s host port) :
    joinHostPort host port = s ↔ (s.head? = some '[' ↔ ':' ∈ host ∨ '%' ∈ host) := by
  cases h with
  | plain hhost hport hcolon hlast =>
    have hbare := hhost.head?_ne port
    by_cases hb : ':' ∈ host ∨ '%' ∈ host
    · rw [joinHostPort_of_marked hb]
      constructor
      · intro heq
        rw [← heq] at hbare
        exact absurd rfl hbare
      · intro hiff
        exact absurd (hiff.2 hb) hbare
    · rw [joinHostPort_of_bare hb]
      exact ⟨fun _ => iff_of_false hbare hb, fun _ => rfl⟩
  | bracketed hhost hport hlast =>
    by_cases hb : ':' ∈ host ∨ '%' ∈ host
    · rw [joinHostPort_of_marked hb]
      exact ⟨fun _ => iff_of_true rfl hb, fun _ => rfl⟩
    · rw [joinHostPort_of_bare hb]
      have hbare := hhost.head?_ne port
      constructor
      · intro heq
        rw [heq] at hbare
        exact absurd rfl hbare
      · intro hiff
        exact absurd (hiff.1 rfl) hb

/-- **Joining and splitting.** Host and port are split again after they were
joined exactly if neither has a bracket and the port has no colon. So it is with
the parts of every text that is split; and joining them gives back this text
exactly if it has brackets around a host with a colon or a percent sign, and
around no other. -/
theorem joined_splits_back (host port : Text) :
    (splitHostPort (joinHostPort host port) = .ok (host, port) ↔
      NoBrackets host ∧ NoBrackets port ∧ ':' ∉ port) ∧
    ∀ s, splitHostPort s = .ok (host, port) →
      splitHostPort (joinHostPort host port) = .ok (host, port) ∧
      (joinHostPort host port = s ↔ (s.head? = some '[' ↔ ':' ∈ host ∨ '%' ∈ host)) := by
  have hjoined : NoBrackets host ∧ NoBrackets port ∧ ':' ∉ port →
      splitHostPort (joinHostPort host port) = .ok (host, port) := by
    intro h
    exact splitHostPort_of_isEndpoint (isEndpoint_joinHostPort h.1 h.2.1 h.2.2)
  refine ⟨⟨fun h => ?_, hjoined⟩, fun s h => ?_⟩
  · have hend := isEndpoint_of_splitHostPort h
    exact ⟨hend.noBrackets, hend.port⟩
  · have hend := isEndpoint_of_splitHostPort h
    exact ⟨hjoined ⟨hend.noBrackets, hend.port⟩, hend.joinHostPort_eq_iff⟩

/-- Brackets that are not needed get lost, and a percent sign gets some. -/
theorem joined_splits_back_rewritten :
    (splitHostPort "[a.b]:80".toList = .ok ("a.b".toList, "80".toList) ∧
      joinHostPort "a.b".toList "80".toList = "a.b:80".toList ∧
      splitHostPort "a.b:80".toList = .ok ("a.b".toList, "80".toList)) ∧
    (splitHostPort "a%b:80".toList = .ok ("a%b".toList, "80".toList) ∧
      joinHostPort "a%b".toList "80".toList = "[a%b]:80".toList ∧
      splitHostPort "[a%b]:80".toList = .ok ("a%b".toList, "80".toList)) := by
  have hdot : splitHostPort "[a.b]:80".toList = .ok ("a.b".toList, "80".toList) := rfl
  have hpercent : splitHostPort "a%b:80".toList = .ok ("a%b".toList, "80".toList) := rfl
  exact ⟨⟨hdot, by decide, ((joined_splits_back _ _).2 _ hdot).1⟩,
    ⟨hpercent, by decide, ((joined_splits_back _ _).2 _ hpercent).1⟩⟩

end NetDial
