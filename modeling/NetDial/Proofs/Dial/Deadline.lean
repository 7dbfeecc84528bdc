import Mathlib.Data.List.Basic
import NetDial.Proofs.Dial.Classification

/-!
# The deadline of a dial

A dial is bounded by the end of its timeout and by its deadline, whichever comes
first. What bounds it is fixed when it starts: the lookup and the attempts share
the time that is left. A dial without time left does nothing at all, and one
that has time left returns by its deadline, also if the server or the attempts
never come to an end. A deadline that nothing reaches makes no difference.

**Results.**
* `effectiveDeadline_eq_some_iff`, `effectiveDeadline_eq_none_iff`: the deadline
  is the least of the bounds.
* `resolve_bounded`, `connect_bounded`, `dial_bounded`: every stage returns by
  the deadline.
* `resolve_eq_unbounded`, `attempt?_eq_unbounded`, `dial_eq_unbounded`: a
  deadline that is not reached makes no difference.
* `dial_within_deadline`: all of this, of a dial.
-/
namespace NetDial

/-! ## The least bound -/

namespace Dialer

/-- What bounds a dial that starts now: the end of its timeout, if that is not
zero and the clock reaches it, and its deadline. -/
inductive IsBound (d : Dialer) (now : Nat) : Nat → Prop where
  | timeout (t : Nat) (ht : d.timeout = some t) (hne : t ≠ 0) (hclock : now + t < clockEnd) :
      IsBound d now (now + t)
  | deadline (t : Nat) (ht : d.deadline = some t) : IsBound d now t

variable {d : Dialer} {now t : Nat}

theorem timeoutEnd?_eq_some_iff :
    d.timeoutEnd? now = some t ↔
      ∃ u, d.timeout = some u ∧ u ≠ 0 ∧ now + u < clockEnd ∧ t = now + u := by
  unfold timeoutEnd? instantAfter?
  cases d.timeout with
  | none => simp
  | some u =>
    by_cases hu : u = 0
    · simp [hu]
    · simp [hu, eq_comm]

theorem isBound_iff :
    d.IsBound now t ↔ d.timeoutEnd? now = some t ∨ d.deadline = some t := by
  rw [timeoutEnd?_eq_some_iff]
  constructor
  · intro h
    cases h with
    | timeout u hu hne hclock => exact .inl ⟨u, hu, hne, hclock, rfl⟩
    | deadline t ht => exact .inr ht
  · rintro (⟨u, hu, hne, hclock, rfl⟩ | ht)
    · exact .timeout u hu hne hclock
    · exact .deadline t ht

theorem effectiveDeadline_eq_some_iff :
    d.effectiveDeadline now = some t ↔ d.IsBound now t ∧ ∀ u, d.IsBound now u → t ≤ u := by
  simp only [isBound_iff]
  unfold effectiveDeadline
  cases d.timeoutEnd? now with
  | none =>
    cases d.deadline with
    | none => simp
    | some v => simp +contextual
  | some u =>
    cases d.deadline with
    | none => simp +contextual
    | some v =>
      simp only [Option.some.injEq]
      show min u v = t ↔ _
      constructor
      · intro h
        exact ⟨by omega, by omega⟩
      · rintro ⟨hbound, hleast⟩
        have hu := hleast u (.inl rfl)
        have hv := hleast v (.inr rfl)
        omega

theorem effectiveDeadline_eq_none_iff :
    d.effectiveDeadline now = none ↔ ∀ u, ¬ d.IsBound now u := by
  simp only [isBound_iff]
  unfold effectiveDeadline
  cases d.timeoutEnd? now with
  | none => simp [Option.eq_none_iff_forall_ne_some]
  | some u =>
    refine iff_of_false ?_ fun h => h u (.inl rfl)
    cases d.deadline <;> simp

/-- The dialer with all the time there is. -/
def unbounded (d : Dialer) : Dialer :=
  { d with timeout := none, deadline := none }

end Dialer

/-! ## Returning by the deadline -/

namespace Session

variable {s : Session} {d : Dialer} {network address : Text} {n : Network} {t : Nat}

theorem resolve_bounded (dir : Directory) (n : Network) (address : Text) (hs : s.now ≤ t) :
    (s.resolve dir (some t) n address).1.isSome = true ∧
      (s.resolve dir (some t) n address).2.now ≤ t := by
  unfold resolve
  split
  · exact ⟨rfl, hs⟩
  · exact ⟨rfl, hs⟩
  · exact ⟨rfl, hs⟩
  · rename_i host zone port _
    unfold resolveName lookup
    obtain ⟨hend, hnow⟩ := await_bounded (dir.resolver.lookup host) hs
    split
    · exact ⟨rfl, hs⟩
    · split <;> rename_i h <;> rw [h] at hend hnow
      · exact ⟨rfl, hnow⟩
      · exact ⟨rfl, hnow⟩
      · exact ⟨rfl, hnow⟩
      · exact absurd rfl hend

theorem connect_bounded {options : ConnectOptions} (d : Dialer) (network : Text) (n : Network)
    (candidates : List NetAddr) (ht : options.deadline = some t) (hs : s.now ≤ t) :
    (s.connect d network n options candidates).1.isSome = true ∧
      (s.connect d network n options candidates).2.now ≤ t := by
  have hends : ∀ call addr, candidates[call]? = some addr →
      (d.connector.attempt? call n options s.now addr).isSome = true := by
    intro call addr _
    rw [Option.isSome_iff_ne_none, ne_eq, Connector.attempt?_eq_none_iff, ht]
    simp
  have hfinish : ∀ a ∈ d.arrivals n options s.now candidates, a.finish ≤ t := by
    intro a ha
    obtain ⟨call, addr, -, hend⟩ := Dialer.mem_arrivals.1 ha
    exact Connector.attempt_finish_le (Connector.attempt?_eq_some_iff.2 hend) ht
  refine ⟨by rw [connect_result hends]; rfl, ?_⟩
  rw [← openAll_now s n options candidates] at hs
  rcases connect_cases s d network n options candidates with
    ⟨before, a, after, horder, -, -, h⟩ | ⟨-, h⟩
  · rw [h]
    show (Session.abandon _ _ _).now ≤ t
    rw [abandon_now]
    refine receive_now_le hs fun b hb => hfinish b ?_
    rw [horder, List.append_cons]
    exact List.mem_append_left after hb
  · rw [h]
    exact receive_now_le hs hfinish

theorem afterResolution_bounded {options : ConnectOptions}
    {res : Option (Except ResolveError AddrList)} (d : Dialer) (network : Text) (n : Network)
    (ht : options.deadline = some t) (hs : s.now ≤ t) (hres : res.isSome = true) :
    (s.afterResolution d network n options res).1.isSome = true ∧
      (s.afterResolution d network n options res).2.now ≤ t := by
  unfold afterResolution
  split
  · cases hres
  · exact ⟨rfl, hs⟩
  · split
    · exact ⟨rfl, hs⟩
    · exact connect_bounded d network n _ ht hs

/-- A dial that has time left returns by its deadline. -/
theorem dial_bounded (network address : Text) (ht : d.effectiveDeadline s.now = some t)
    (hs : s.now < t) :
    (s.dial d network address).1.isSome = true ∧ (s.dial d network address).2.now ≤ t := by
  have hin := in_time_of_lt ht hs
  cases hn : Network.parse network with
  | error e =>
    rw [dial_of_unknown_network hin hn]
    exact ⟨rfl, Nat.le_of_lt hs⟩
  | ok n =>
    obtain ⟨hres, hnow⟩ := resolve_bounded d.toDirectory n address (Nat.le_of_lt hs)
    rw [dial_of_network address hin hn, ht]
    exact afterResolution_bounded d network n rfl hnow hres

end Session

/-! ## A deadline that is not reached -/

/-- What comes of connecting does not depend on the deadline. -/
def Connector.IgnoresDeadline (c : Connector) : Prop :=
  ∀ call n addr options deadline,
    c.connect call n addr { options with deadline := deadline } = c.connect call n addr options

/-- Each call of the connector that was made ends before an instant. -/
def Connector.EndsBefore (c : Connector) (t : Nat) (openings : List Opening) : Prop :=
  ∀ o ∈ openings, ∃ delay,
    (c.connect o.call o.network o.addr o.options).delay = some delay ∧ o.time + delay < t

/-- The lookup of a name, if the address on the network has one, ends before an
instant. -/
def Session.LookupEndsBefore (s : Session) (d : Directory) (t : Nat) (network address : Text) :
    Prop :=
  ∀ n host zone port, Network.parse network = .ok n →
    Target.parse n d.services address = .ok (.name host zone port) →
    ∃ u a, s.lookupEnd? d.resolver host = some (u, a) ∧ u < t

theorem Connector.attempt?_eq_unbounded {c : Connector} (hc : c.IgnoresDeadline) {n : Network}
    {options : ConnectOptions} {call now t delay : Nat} {addr : NetAddr}
    (ht : options.deadline = some t) (hd : (c.connect call n addr options).delay = some delay)
    (hin : now + delay < t) :
    c.attempt? call n options now addr =
      c.attempt? call n { options with deadline := none } now addr := by
  have hsame := hc call n addr options none
  have hend : c.attempt? call n options now addr =
      some ⟨n, addr, now, now + delay, (c.connect call n addr options).error⟩ :=
    attempt?_eq_some_iff.2 (.inTime delay hd fun u hu => by
      rw [ht, Option.some.injEq] at hu; omega)
  rw [hend, eq_comm, attempt?_eq_some_iff, hsame]
  exact .inTime delay hd fun u hu => by cases hu

namespace Session

variable {s : Session} {d : Dialer} {network address : Text} {n : Network} {t : Nat}

theorem resolve_eq_unbounded {dir : Directory} (hn : Network.parse network = .ok n)
    (hs : s.now < t) (h : s.LookupEndsBefore dir t network address) :
    s.resolve dir (some t) n address = s.resolve dir none n address := by
  unfold resolve
  split
  · rfl
  · rfl
  · rfl
  · rename_i host zone port hparse
    obtain ⟨u, a, hend, hu⟩ := h n host zone port hn hparse
    have hsame : s.lookup dir.resolver (some t) host = s.lookup dir.resolver none host :=
      await_eq_of_awaitEnd? (dir.resolver.lookup host) hend hu
    have hleft : ((some t).any fun u => decide (u ≤ s.now)) = false := by
      simpa using hs
    unfold resolveName
    rw [hleft, hsame]
    rfl

/-- What trying candidates comes to depends on their attempts alone. -/
theorem connect_congr {e : Dialer} {options options' : ConnectOptions} {candidates : List NetAddr}
    (h : ∀ call addr, candidates[call]? = some addr →
      d.connector.attempt? call n options s.now addr =
        e.connector.attempt? call n options' s.now addr) :
    (s.connect d network n options candidates).1 = (s.connect e network n options' candidates).1 := by
  have hattempts : d.attempts n options s.now candidates = e.attempts n options' s.now candidates :=
    List.filterMap_congr fun p hp => h p.2 p.1 (List.mem_zipIdx_iff_getElem?.1 hp)
  have horder : d.arrivals n options s.now candidates = e.arrivals n options' s.now candidates := by
    unfold Dialer.arrivals
    rw [hattempts]
  unfold connect
  simp only [horder]
  split
  · rfl
  · split <;> rfl

/-- A dial whose lookup and calls all end before the deadline comes to the same
without deadline. -/
theorem dial_eq_unbounded (ht : d.effectiveDeadline s.now = some t) (hs : s.now < t)
    (hc : d.connector.IgnoresDeadline) (hlookup : s.LookupEndsBefore d.toDirectory t network address)
    (hcalls : d.connector.EndsBefore t (openedSince s (s.dial d network address).2)) :
    (s.dial d network address).1 = (s.dial d.unbounded network address).1 := by
  have hin := in_time_of_lt ht hs
  have hfree : ∀ u, d.unbounded.effectiveDeadline s.now = some u → s.now < u := fun u hu => by
    cases hu
  cases hn : Network.parse network with
  | error e => rw [dial_of_unknown_network hin hn, dial_of_unknown_network hfree hn]
  | ok n =>
    cases hres : s.resolve d.toDirectory (some t) n address with
    | mk res v =>
      have hbounded : s.resolve d.toDirectory (d.effectiveDeadline s.now) n address = (res, v) := by
        rw [ht, hres]
      have hunbounded : s.resolve d.unbounded.toDirectory (d.unbounded.effectiveDeadline s.now) n
          address = (res, v) :=
        (resolve_eq_unbounded hn hs hlookup).symm.trans hres
      by_cases htry : ∃ found, res = some (.ok found) ∧ d.candidates n found ≠ []
      · obtain ⟨found, rfl, hne⟩ := htry
        have htries : s.Tries d network address n v (d.candidates n found) :=
          ⟨hin, hn, ⟨found, hbounded, rfl⟩, hne⟩
        have htriesFree : s.Tries d.unbounded network address n v (d.candidates n found) :=
          ⟨hfree, hn, ⟨found, hunbounded, rfl⟩, hne⟩
        rw [openedSince_of_tries htries] at hcalls
        rw [dial_of_tries htries, dial_of_tries htriesFree]
        refine connect_congr fun call addr hplace => ?_
        have hcall := List.mk_mem_zipIdx_iff_getElem?.2 hplace
        obtain ⟨delay, hd, hlt⟩ := hcalls _ (List.mem_map_of_mem hcall)
        exact Connector.attempt?_eq_unbounded hc ht hd hlt
      · -- Nothing is tried, so what the options say does not matter.
        rw [dial_of_network address hin hn, dial_of_network address hfree hn, hbounded, hunbounded]
        rcases res with _ | e | found
        · rfl
        · rfl
        · have hnil : d.candidates n found = [] :=
            Classical.not_not.1 fun hne => htry ⟨found, rfl, hne⟩
          exact (congrArg Prod.fst (if_pos hnil)).trans (congrArg Prod.fst (if_pos hnil)).symm

/-- **Deadline.** The deadline of a dial is the least of its bounds, and none if
there is no bound. A dial without time left returns a timeout at once, whatever
network and address it is given and whatever its resolver, services, connector
and filter are, and leaves the session as it is, so nobody is asked. A dial with
time left returns by its deadline; and if its lookup and all calls of its
connector end before the deadline then it returns what it would return without,
provided that the connector ignores the deadline. -/
theorem dial_within_deadline (s : Session) (d : Dialer) (network address : Text) :
    (∀ t, d.effectiveDeadline s.now = some t ↔
      d.IsBound s.now t ∧ ∀ u, d.IsBound s.now u → t ≤ u) ∧
    (d.effectiveDeadline s.now = none ↔ ∀ u, ¬ d.IsBound s.now u) ∧
    ∀ t, d.effectiveDeadline s.now = some t →
      (t ≤ s.now → ∃ e, e.kind = .timeout ∧ s.dial d network address = (some (.error e), s) ∧
        ∀ (dir : Directory) (c : Connector) (f : Filter),
          s.dial { d with toDirectory := dir, connector := c, filter := f } network address =
            (some (.error e), s)) ∧
      (s.now < t →
        (∃ result, (s.dial d network address).1 = some result) ∧
        (s.dial d network address).2.now ≤ t ∧
        (d.connector.IgnoresDeadline → s.LookupEndsBefore d.toDirectory t network address →
          d.connector.EndsBefore t (openedSince s (s.dial d network address).2) →
          (s.dial d network address).1 = (s.dial d.unbounded network address).1)) := by
  refine ⟨fun t => Dialer.effectiveDeadline_eq_some_iff, Dialer.effectiveDeadline_eq_none_iff,
    fun t ht => ⟨fun hpassed => ?_, fun hs => ?_⟩⟩
  · have hexpired : ∀ e : Dialer, e.effectiveDeadline s.now = some t →
        s.dial e network address = (some (.error (.expired network)), s) := fun e he =>
      dial_of_expired ⟨t, he, hpassed⟩
    exact ⟨.expired network, rfl, hexpired d ht, fun dir c f => hexpired _ ht⟩
  · obtain ⟨hreturns, hnow⟩ := dial_bounded network address ht hs
    exact ⟨Option.isSome_iff_exists.1 hreturns, hnow, dial_eq_unbounded ht hs⟩

end Session

/-! ## A dial of three mirrors -/

/-- The address of a mirror. -/
def mirrorAddr (number : UInt8) : NetAddr :=
  .stream (.ofIp (.v4 ⟨10, 0, 0, number⟩)) 80

/-- What the calls come to that connect to the mirrors. -/
def mirrorConnector (results : List Connecting) : Connector :=
  ⟨"Mirrors".toList, fun call _ _ _ => results[call]?.getD .never⟩

/-- Who watches the attempts at the mirrors. -/
def watcher : Server :=
  ⟨"Watcher".toList, 1⟩

/-- Tries three mirrors at once, up to the instant 10. The watcher is not asked
for the mirrors. -/
def mirrorDialer (results : List Connecting) : Dialer where
  resolver := .boxed (.chain [
    .table (Table.empty.insert ⟨"mirror".toList, by decide⟩
      [.v4 ⟨10, 0, 0, 1⟩, .v4 ⟨10, 0, 0, 2⟩, .v4 ⟨10, 0, 0, 3⟩]),
    .cache 0 60 (.server watcher)])
  capability := .dualStack
  services := .wellKnown
  connector := mirrorConnector results
  filter := .all
  deadline := some 10

theorem mirror_tries (results : List Connecting) :
    Session.nobodyKnown.Tries (mirrorDialer results) "tcp".toList "mirror:80".toList (.tcp .any)
      Session.nobodyKnown [mirrorAddr 1, mirrorAddr 2, mirrorAddr 3] where
  inTime u hu := by
    cases hu
    decide
  network := by rfl
  resolved := ⟨⟨.stream, [mirrorAddr 1, mirrorAddr 2, mirrorAddr 3]⟩, by rfl, by rfl⟩
  nonempty := by simp

/-- The second mirror answers first, long before the deadline. -/
def promptResults : List Connecting :=
  [⟨some 3, some (.root .connectDenied)⟩, ⟨some 4, none⟩, ⟨some 6, none⟩]

/-- The dial of mirrors that all answer in time comes to the same without
deadline. -/
theorem dial_within_deadline_prompt :
    let d := mirrorDialer promptResults
    let dialed := Session.nobodyKnown.dial d "tcp".toList "mirror:80".toList
    (d.effectiveDeadline 0 = some 10 ∧ Session.nobodyKnown.now < 10 ∧
        d.connector.IgnoresDeadline ∧
        Session.nobodyKnown.LookupEndsBefore d.toDirectory 10 "tcp".toList "mirror:80".toList ∧
        d.connector.EndsBefore 10 (Session.openedSince Session.nobodyKnown dialed.2)) ∧
      dialed.2.now ≤ 10 ∧
      dialed.1 = (Session.nobodyKnown.dial d.unbounded "tcp".toList "mirror:80".toList).1 := by
  intro d dialed
  have hignores : d.connector.IgnoresDeadline := fun _ _ _ _ _ => rfl
  have hlookup : Session.nobodyKnown.LookupEndsBefore d.toDirectory 10 "tcp".toList
      "mirror:80".toList := by
    intro n host zone port hn hparse
    have htcp : Network.parse "tcp".toList = .ok (.tcp .any) := rfl
    rw [htcp] at hn
    cases hn
    have hname : Target.parse (.tcp .any) .wellKnown "mirror:80".toList =
        .ok (.name ⟨"mirror".toList, by decide⟩ none 80) := rfl
    rw [show d.services = .wellKnown from rfl, hname] at hparse
    cases hparse
    exact ⟨0, _, rfl, by decide⟩
  have hcalls : d.connector.EndsBefore 10 (Session.openedSince Session.nobodyKnown dialed.2) := by
    intro o ho
    rw [Session.openedSince_of_tries (mirror_tries promptResults)] at ho
    simp only [List.zipIdx_cons, List.zipIdx_nil, List.map_cons, List.map_nil, List.mem_cons,
      List.not_mem_nil, or_false] at ho
    rcases ho with rfl | rfl | rfl
    · exact ⟨3, rfl, by decide⟩
    · exact ⟨4, rfl, by decide⟩
    · exact ⟨6, rfl, by decide⟩
  obtain ⟨-, hnow, hsame⟩ := ((Session.dial_within_deadline Session.nobodyKnown d "tcp".toList
    "mirror:80".toList).2.2 10 rfl).2 (by decide)
  exact ⟨⟨rfl, by decide, hignores, hlookup, hcalls⟩, hnow, hsame hignores hlookup hcalls⟩

end NetDial
