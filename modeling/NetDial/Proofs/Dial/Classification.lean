import NetDial.Proofs.Address.AddrList
import NetDial.Proofs.Dial.Attempts
import NetDial.Proofs.Dial.Resolution

/-!
# The errors of a dial

A dial can be refused before any attempt is made, for one of five reasons. They
have an order, and the first that applies gives the error its kind. Only if none
applies is the connector called; an error then comes from an attempt and names
its address, and no error names one otherwise.

**Results.**
* `candidates_eq_nil_iff`: when the filter leaves nothing to try.
* `dial_of_tries`, `openedSince_of_tries`: what a dial does that comes to try
  candidates.
* `tries_or_resolves`: what it does otherwise.
* `isRefused_of_first`, `tries_of_not_refused`, `dial_error`: a dial that is
  refused, and one that is not.
* `dial_error_classified`: the kind and the address of every error.
-/
namespace NetDial

/-- Why a dial makes no attempt. -/
inductive Refusal where
  | expired
  | malformed
  | notFound
  | lookupLate
  | nothingLeft
  deriving DecidableEq, Repr

/-- The filter picks no index at which there is an address. -/
def Dialer.PicksNothing (d : Dialer) (found : AddrList) : Prop :=
  ∀ i ∈ d.filter.select found.ips, found.addrs.length ≤ i

namespace Refusal

/-- The place of a reason in the order in which they are looked at. -/
def rank : Refusal → Nat
  | expired => 0
  | malformed => 1
  | notFound => 2
  | lookupLate => 3
  | nothingLeft => 4

/-- The kind of the error. -/
def kind : Refusal → DialErrorKind
  | expired => .timeout
  | malformed => .malformedInput
  | notFound => .resolution
  | lookupLate => .timeout
  | nothingLeft => .noSuitableAddress

/-- What the reasons are, each by itself. -/
def Applies (s : Session) (d : Dialer) (network address : Text) : Refusal → Prop
  | expired => ∃ t, d.effectiveDeadline s.now = some t ∧ t ≤ s.now
  | malformed =>
    (∃ e, Network.parse network = .error e) ∨
      ∃ n, Network.parse network = .ok n ∧ IsMalformed n d.services address
  | notFound => ∃ n, Network.parse network = .ok n ∧
      s.NotFound d.toDirectory (d.effectiveDeadline s.now) n address
  | lookupLate => ∃ n host name t, Network.parse network = .ok n ∧
      s.LookupLate d.toDirectory (d.effectiveDeadline s.now) n address host name t
  | nothingLeft => ∃ n, Network.parse network = .ok n ∧
      (s.NothingUsable d.toDirectory (d.effectiveDeadline s.now) n address ∨
        ∃ found, (s.resolve d.toDirectory (d.effectiveDeadline s.now) n address).1 =
          some (.ok found) ∧ d.PicksNothing found)

/-- The reason applies and none before it does. -/
structure IsFirst (s : Session) (d : Dialer) (network address : Text) (r : Refusal) : Prop where
  applies : Applies s d network address r
  first : ∀ q, Applies s d network address q → r.rank ≤ q.rank

/-- If some reason applies then there is a first one. -/
theorem exists_first {s : Session} {d : Dialer} {network address : Text} {r : Refusal}
    (h : Applies s d network address r) : ∃ q, IsFirst s d network address q := by
  induction hr : r.rank using Nat.strongRecOn generalizing r with
  | _ k ih =>
    by_cases hfirst : ∀ q, Applies s d network address q → r.rank ≤ q.rank
    · exact ⟨r, h, hfirst⟩
    · simp only [Classical.not_forall, Nat.not_le] at hfirst
      obtain ⟨q, hq, hlt⟩ := hfirst
      exact ih q.rank (by omega) hq rfl

end Refusal

/-! ## Candidates -/

theorem Dialer.candidates_eq_nil_iff {d : Dialer} {n : Network} {found : AddrList} :
    d.candidates n found = [] ↔ d.PicksNothing found := by
  have hpicked : (d.filter.filterAddrs found).addrs = [] ↔ d.PicksNothing found :=
    AddrList.select_eq_nil_iff found (d.filter.select found.ips)
  unfold candidates
  simp only
  split
  · exact hpicked
  · rw [← hpicked, List.take_eq_nil_iff]
    simp

namespace Session

variable {s : Session} {d : Dialer} {network address : Text} {n : Network}

/-! ## The stages of a dial -/

theorem dial_of_expired (h : Refusal.Applies s d network address .expired) :
    s.dial d network address = (some (.error (.expired network)), s) := by
  obtain ⟨t, hd, ht⟩ := h
  unfold dial
  simp [hd, ht]

theorem in_time_of_not_expired (h : ¬ Refusal.Applies s d network address .expired) :
    ∀ t, d.effectiveDeadline s.now = some t → s.now < t :=
  fun t hd => Nat.lt_of_not_le fun ht => h ⟨t, hd, ht⟩

theorem dial_of_unknown_network (ht : ∀ t, d.effectiveDeadline s.now = some t → s.now < t)
    {e : UnknownNetwork} (hn : Network.parse network = .error e) :
    s.dial d network address =
      (some (.error (.malformed network (.root (.unknownNetwork e)))), s) := by
  simp [dial, not_passed ht, hn]

/-- What a dial does with what its resolution came to. -/
def afterResolution (t : Session) (d : Dialer) (network : Text) (n : Network)
    (options : ConnectOptions) :
    Option (Except ResolveError AddrList) → Option (Except DialError NetAddr) × Session
  | none => (none, t)
  | some (.error e) => (some (.error (.ofResolve network e)), t)
  | some (.ok found) =>
    if d.candidates n found = [] then (some (.error (.ofResolve network .noSuitableAddress)), t)
    else t.connect d network n options (d.candidates n found)

theorem dial_of_network (address : Text)
    (ht : ∀ t, d.effectiveDeadline s.now = some t → s.now < t)
    (hn : Network.parse network = .ok n) :
    s.dial d network address =
      (s.resolve d.toDirectory (d.effectiveDeadline s.now) n address).2.afterResolution d network n
        (d.options (d.effectiveDeadline s.now))
        (s.resolve d.toDirectory (d.effectiveDeadline s.now) n address).1 := by
  unfold dial
  simp only [not_passed ht, hn, Bool.false_eq_true, if_false]
  split
  · rename_i hres
    rw [hres]
    rfl
  · rename_i hres
    rw [hres]
    rfl
  · rename_i found t hres
    rw [hres]
    show _ = if d.candidates n found = [] then _ else _
    cases hc : d.candidates n found with
    | nil => exact (if_pos rfl).symm
    | cons a as => exact (if_neg (List.cons_ne_nil a as)).symm

/-- The dial comes to try these candidates on this network, in the session that
its resolution leaves. -/
structure Tries (s : Session) (d : Dialer) (network address : Text) (n : Network) (t : Session)
    (candidates : List NetAddr) : Prop where
  inTime : ∀ u, d.effectiveDeadline s.now = some u → s.now < u
  network : Network.parse network = .ok n
  resolved : ∃ found, s.resolve d.toDirectory (d.effectiveDeadline s.now) n address =
    (some (.ok found), t) ∧ d.candidates n found = candidates
  nonempty : candidates ≠ []

theorem dial_of_tries {t : Session} {candidates : List NetAddr}
    (h : s.Tries d network address n t candidates) :
    s.dial d network address =
      t.connect d network n (d.options (d.effectiveDeadline s.now)) candidates := by
  obtain ⟨found, hres, rfl⟩ := h.resolved
  rw [dial_of_network address h.inTime h.network, hres]
  exact if_neg h.nonempty

/-- A dial tries candidates, or it does nothing but resolve, if that. -/
theorem tries_or_resolves (s : Session) (d : Dialer) (network address : Text) :
    (∃ n t candidates, s.Tries d network address n t candidates) ∨
      (s.dial d network address).2 = s ∨
      ∃ n, (s.dial d network address).2 =
        (s.resolve d.toDirectory (d.effectiveDeadline s.now) n address).2 := by
  by_cases hexpired : Refusal.Applies s d network address .expired
  · exact .inr (.inl (by rw [dial_of_expired hexpired]))
  have ht := in_time_of_not_expired hexpired
  cases hn : Network.parse network with
  | error e => exact .inr (.inl (by rw [dial_of_unknown_network ht hn]))
  | ok n =>
    rw [dial_of_network address ht hn]
    cases hres : s.resolve d.toDirectory (d.effectiveDeadline s.now) n address with
    | mk res t =>
      cases res with
      | none => exact .inr (.inr ⟨n, by rw [hres]; rfl⟩)
      | some res =>
        cases res with
        | error e => exact .inr (.inr ⟨n, by rw [hres]; rfl⟩)
        | ok found =>
          by_cases hnil : d.candidates n found = []
          · exact .inr (.inr ⟨n, by rw [hres, afterResolution, if_pos hnil]⟩)
          · exact .inl ⟨n, t, _, ht, hn, ⟨found, hres, rfl⟩, hnil⟩

/-! ## Refused dials -/

/-- The attempts that were started between two sessions. -/
def openedSince (s t : Session) : List Opening :=
  t.record.openings.drop s.record.openings.length

theorem openedSince_of_idle {t : Session} (h : Idle s t) : openedSince s t = [] := by
  unfold openedSince
  rw [h.openings]
  exact List.drop_length

theorem openedSince_of_tries {t : Session} {candidates : List NetAddr}
    (h : s.Tries d network address n t candidates) :
    openedSince s (s.dial d network address).2 =
      candidates.zipIdx.map fun p =>
        ⟨p.2, n, p.1, t.now, d.options (d.effectiveDeadline s.now)⟩ := by
  obtain ⟨found, hres, -⟩ := h.resolved
  have hidle := resolve_idle s d.toDirectory (d.effectiveDeadline s.now) n address
  rw [hres] at hidle
  unfold openedSince
  rw [dial_of_tries h, connect_openings, hidle.openings, List.drop_left]

/-- The dial fails with an error of this kind, without address, and no attempt
is made. -/
def IsRefused (s : Session) (d : Dialer) (network address : Text) (kind : DialErrorKind) : Prop :=
  ∃ e t, s.dial d network address = (some (.error e), t) ∧ e.kind = kind ∧ e.addr = none ∧
    Idle s t

theorem isRefused_of_resolve_error {kind : DialErrorKind}
    (ht : ∀ t, d.effectiveDeadline s.now = some t → s.now < t)
    (hn : Network.parse network = .ok n)
    (h : ∃ e, (s.resolve d.toDirectory (d.effectiveDeadline s.now) n address).1 =
      some (.error e) ∧ e.kind = kind) : IsRefused s d network address kind := by
  obtain ⟨e, he, hkind⟩ := h
  have hdial := dial_of_network address ht hn
  simp only [he] at hdial
  exact ⟨_, _, hdial, hkind, rfl, resolve_idle s d.toDirectory _ n address⟩

theorem isRefused_of_picksNothing (ht : ∀ t, d.effectiveDeadline s.now = some t → s.now < t)
    (hn : Network.parse network = .ok n) {found : AddrList}
    (h : (s.resolve d.toDirectory (d.effectiveDeadline s.now) n address).1 = some (.ok found))
    (hpick : d.PicksNothing found) : IsRefused s d network address .noSuitableAddress := by
  have hdial := dial_of_network address ht hn
  simp only [h, afterResolution, Dialer.candidates_eq_nil_iff.2 hpick, if_true] at hdial
  exact ⟨_, _, hdial, rfl, rfl, resolve_idle s d.toDirectory _ n address⟩

/-- **Refusal.** The first reason that applies gives the error its kind, and no
attempt is made. -/
theorem isRefused_of_first {r : Refusal} (h : Refusal.IsFirst s d network address r) :
    IsRefused s d network address r.kind := by
  have happlies := h.applies
  have hin : 0 < r.rank → ∀ t, d.effectiveDeadline s.now = some t → s.now < t := fun hlt =>
    in_time_of_not_expired fun hq => Nat.not_le_of_lt hlt (h.first .expired hq)
  have hwell : 1 < r.rank → ∀ n, Network.parse network = .ok n →
      ¬ IsMalformed n d.services address := fun hlt n hn hm =>
    Nat.not_le_of_lt hlt (h.first .malformed (.inr ⟨n, hn, hm⟩))
  cases r with
  | expired => exact ⟨_, s, dial_of_expired happlies, rfl, rfl, .refl s⟩
  | malformed =>
    have ht := hin (by decide)
    rcases happlies with ⟨e, hn⟩ | ⟨n, hn, hm⟩
    · exact ⟨_, s, dial_of_unknown_network ht hn, rfl, rfl, .refl s⟩
    · exact isRefused_of_resolve_error ht hn (resolve_of_malformed hm)
  | notFound =>
    have ht := hin (by decide)
    obtain ⟨n, hn, hfail⟩ := happlies
    have hw := hwell (by decide) n hn
    exact isRefused_of_resolve_error ht hn (resolve_of_notFound hw ht hfail)
  | lookupLate =>
    have ht := hin (by decide)
    obtain ⟨n, host, name, t, hn, hlate⟩ := happlies
    have hw := hwell (by decide) n hn
    exact isRefused_of_resolve_error ht hn (resolve_of_lookupLate hw ht hlate)
  | nothingLeft =>
    have ht := hin (by decide)
    obtain ⟨n, hn, hleft⟩ := happlies
    have hw := hwell (by decide) n hn
    rcases hleft with hnone | ⟨found, hfound, hpick⟩
    · exact isRefused_of_resolve_error ht hn (resolve_of_nothingUsable hw ht hnone)
    · exact isRefused_of_picksNothing ht hn hfound hpick

/-! ## Dials that are not refused -/

/-- A dial for which no reason applies comes to try candidates, unless it never
returns. -/
theorem tries_of_not_refused (hnone : ∀ r, ¬ Refusal.Applies s d network address r)
    {result : Except DialError NetAddr} (h : (s.dial d network address).1 = some result) :
    ∃ n t candidates, s.Tries d network address n t candidates := by
  have ht := in_time_of_not_expired (hnone .expired)
  cases hn : Network.parse network with
  | error unknown => exact absurd (.inl ⟨unknown, hn⟩) (hnone .malformed)
  | ok n =>
    cases hres : (s.resolve d.toDirectory (d.effectiveDeadline s.now) n address).1 with
    | none =>
      rw [dial_of_network address ht hn, hres] at h
      cases h
    | some res =>
      cases res with
      | error cause =>
        exfalso
        rcases resolve_error ht hres with hm | hfail | ⟨host, name, t, hlate⟩ | hleft
        · exact hnone .malformed (.inr ⟨n, hn, hm⟩)
        · exact hnone .notFound ⟨n, hn, hfail⟩
        · exact hnone .lookupLate ⟨n, host, name, t, hn, hlate⟩
        · exact hnone .nothingLeft ⟨n, hn, .inl hleft⟩
      | ok found =>
        have hpick : ¬ d.candidates n found = [] := fun hnil =>
          hnone .nothingLeft ⟨n, hn, .inr ⟨found, hres, Dialer.candidates_eq_nil_iff.1 hnil⟩⟩
        exact ⟨n, _, _, ht, hn, ⟨found, Prod.ext hres rfl, rfl⟩, hpick⟩

/-- A dial that comes to try candidates calls the connector. -/
theorem openedSince_ne_nil_of_tries {t : Session} {candidates : List NetAddr}
    (h : s.Tries d network address n t candidates) :
    openedSince s (s.dial d network address).2 ≠ [] := by
  rw [openedSince_of_tries h]
  simpa using h.nonempty

/-- A dial for which no reason applies fails only by its attempts, which are at
the candidates. -/
theorem dial_error (hnone : ∀ r, ¬ Refusal.Applies s d network address r) {e : DialError}
    (h : (s.dial d network address).1 = some (.error e)) :
    ∃ o ∈ openedSince s (s.dial d network address).2, ∃ cause,
      e = .ofConnect network o.addr.text cause := by
  obtain ⟨n, t, candidates, htries⟩ := tries_of_not_refused hnone h
  rw [dial_of_tries htries] at h
  rw [openedSince_of_tries htries]
  obtain ⟨a, ha, cause, rfl⟩ := connect_error htries.nonempty h
  obtain ⟨call, hplace⟩ := List.mem_iff_getElem?.1 ha
  have hcall := List.mk_mem_zipIdx_iff_getElem?.2 hplace
  exact ⟨_, List.mem_map_of_mem hcall, cause, rfl⟩

/-- **Classification.** The first reason for which a dial is refused gives its
error the kind, and attempts are made only if there is none. A dial that is not
refused has made one when it returns, and an error of it is a timeout or a failed
connect and names the address of an attempt. So an error names an address exactly
if an attempt was made. -/
theorem dial_error_classified (s : Session) (d : Dialer) (network address : Text) :
    let dialed := s.dial d network address
    let opened := openedSince s dialed.2
    (∀ r, Refusal.IsFirst s d network address r →
      ∃ e, dialed.1 = some (.error e) ∧ e.kind = r.kind ∧ e.addr = none) ∧
    (opened ≠ [] → ∀ r, ¬ Refusal.Applies s d network address r) ∧
    ((∀ r, ¬ Refusal.Applies s d network address r) →
      ∀ result, dialed.1 = some result → opened ≠ []) ∧
    ∀ e, dialed.1 = some (.error e) →
      ((∃ r, Refusal.IsFirst s d network address r) ∨
        (∀ r, ¬ Refusal.Applies s d network address r) ∧
          (e.kind = .timeout ∨ e.kind = .connect) ∧ ∃ o ∈ opened, e.addr = some o.addr.text) ∧
      (e.addr.isSome = true ↔ opened ≠ []) := by
  intro dialed opened
  have hrefused : ∀ r, Refusal.IsFirst s d network address r →
      ∃ e, dialed.1 = some (.error e) ∧ e.kind = r.kind ∧ e.addr = none ∧ opened = [] := by
    intro r hr
    obtain ⟨e, t, hdial, hkind, haddr, hidle⟩ := isRefused_of_first hr
    have hopened : opened = openedSince s t := by
      show openedSince s (s.dial d network address).2 = _
      rw [hdial]
    refine ⟨e, by show (s.dial d network address).1 = _; rw [hdial], hkind, haddr, ?_⟩
    rw [hopened]
    exact openedSince_of_idle hidle
  refine ⟨fun r hr => ?_, fun hopened r hr => ?_, fun hnone result hresult => ?_, fun e he => ?_⟩
  · obtain ⟨e, he, hkind, haddr, -⟩ := hrefused r hr
    exact ⟨e, he, hkind, haddr⟩
  · obtain ⟨q, hq⟩ := Refusal.exists_first hr
    obtain ⟨-, -, -, -, hnil⟩ := hrefused q hq
    exact hopened hnil
  · obtain ⟨n, t, candidates, htries⟩ := tries_of_not_refused hnone hresult
    exact openedSince_ne_nil_of_tries htries
  · by_cases hsome : ∃ r, Refusal.Applies s d network address r
    · obtain ⟨r, hr⟩ := hsome
      obtain ⟨q, hq⟩ := Refusal.exists_first hr
      obtain ⟨e', he', -, haddr, hnil⟩ := hrefused q hq
      have hsame : e = e' := by
        rw [he, Option.some.injEq, Except.error.injEq] at he'
        exact he'
      refine ⟨.inl ⟨q, hq⟩, ?_⟩
      rw [hsame, haddr, hnil]
      simp
    · have hnone : ∀ r, ¬ Refusal.Applies s d network address r := fun r hr => hsome ⟨r, hr⟩
      obtain ⟨o, ho, cause, rfl⟩ := dial_error hnone he
      have hkind : (DialError.ofConnect network o.addr.text cause).kind = .timeout ∨
          (DialError.ofConnect network o.addr.text cause).kind = .connect := by
        unfold DialError.ofConnect
        by_cases hc : cause.isTimeout = true
        · exact .inl (if_pos hc)
        · exact .inr (if_neg hc)
      have hopened : opened ≠ [] := List.ne_nil_of_mem ho
      exact ⟨.inr ⟨hnone, hkind, o, ho, rfl⟩, fun _ => hopened, fun _ => rfl⟩

end Session
end NetDial
