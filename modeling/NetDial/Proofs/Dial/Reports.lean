import NetDial.Proofs.Address.AddrList
import NetDial.Proofs.Dial.Deadline
import NetDial.Proofs.Race.Conservation
import NetDial.Proofs.Session.Reports

/-!
# The attempts of a dial and their reports

A dial that finds addresses attempts those that its filter picks, each as often
as it is picked, and no other. An attempt is reported when it ends: while the
dial waits if it ends before the race is decided, and by the clock if it ends
later. Either way the report is made once.

**Results.**
* `opened_of_finds`, `addrs_of_finds`: which addresses are attempted.
* `tells_receive`, `tells_abandon`, `tells_connect`, `tells_dial`: what each
  stage of a dial adds to what is heard by an instant.
* `heard_of_race`: the attempts of a race are reported once, however it goes.
* `dial_attempts_reported`: all of this, of a dial.
-/
namespace NetDial

/-! ## The calls of a connector -/

namespace Connector

/-- The attempt that a call of the connector comes to, if it ever ends. -/
def attemptOf? (c : Connector) (o : Opening) : Option Attempt :=
  c.attempt? o.call o.network o.options o.time o.addr

/-- The attempts of these calls that have ended at an instant. -/
def endedBy (c : Connector) (u : Nat) (openings : List Opening) : List Attempt :=
  (openings.filterMap c.attemptOf?).filter fun a => a.finish ≤ u

/-- The call gets a connection, and by its deadline if it has one. -/
def Connects (c : Connector) (o : Opening) : Prop :=
  ∃ delay, (c.connect o.call o.network o.addr o.options).delay = some delay ∧
    (c.connect o.call o.network o.addr o.options).error = none ∧
    ∀ t, o.options.deadline = some t → o.time + delay ≤ t

variable {c : Connector} {o : Opening} {a : Attempt} {openings : List Opening} {u : Nat}

/-- The event of an attempt tells its network and address, and an error unless
there is a connection. -/
theorem event_of_attemptOf? (h : c.attemptOf? o = some a) :
    a.event.network = o.network ∧ a.event.addr = o.addr ∧
      (a.event.error = none ↔ c.Connects o) := by
  cases attempt?_eq_some_iff.1 h with
  | inTime delay hd hin =>
    refine ⟨rfl, rfl, fun herr => ⟨delay, hd, herr, hin⟩, fun hok => ?_⟩
    obtain ⟨-, -, herr, -⟩ := hok
    exact herr
  | cutOff t ht hlate =>
    refine ⟨rfl, rfl, iff_of_false (by simp [Attempt.event]) fun hok => ?_⟩
    obtain ⟨delay, hd, -, hin⟩ := hok
    exact Nat.not_le_of_lt (hlate delay hd) (hin t ht)

/-- If all calls have ended then each has its attempt. -/
theorem map_attemptOf?_of_ended
    (h : ∀ o ∈ openings, ∃ a, c.attemptOf? o = some a ∧ a.finish ≤ u) :
    openings.map c.attemptOf? = (c.endedBy u openings).map some := by
  unfold endedBy
  induction openings with
  | nil => rfl
  | cons o openings ih =>
    rw [List.forall_mem_cons] at h
    obtain ⟨⟨a, ha, hu⟩, hrest⟩ := h
    rw [List.map_cons, ih hrest, List.filterMap_cons_some ha,
      List.filter_cons_of_pos (by simpa using hu), List.map_cons, ha]

end Connector

namespace Session

variable {s t : Session} {d : Dialer} {network address : Text} {n : Network} {u : Nat}
  {r : Resolver} {found : AddrList}

/-! ## Which addresses are attempted -/

/-- The dial has time left and the resolution finds these addresses: the dial
comes to the point where it picks some and connects to them. -/
structure Finds (s : Session) (d : Dialer) (network address : Text) (n : Network)
    (found : AddrList) : Prop where
  inTime : ∀ t, d.effectiveDeadline s.now = some t → s.now < t
  known : Network.parse network = .ok n
  resolved : (s.resolveDial d network address).1 = some (.ok found)

theorem resolveDial_eq_ok_iff (hn : Network.parse network = .ok n) :
    (s.resolveDial d network address).1 = some (.ok found) ↔
      (s.resolve d.toDirectory (d.effectiveDeadline s.now) n address).1 = some (.ok found) := by
  unfold resolveDial
  rw [hn]
  simp only
  split <;> rename_i h <;> simp [h]

theorem Finds.tries (h : s.Finds d network address n found) (hne : d.candidates n found ≠ []) :
    ∃ t, s.Tries d network address n t (d.candidates n found) := by
  have hres := (resolveDial_eq_ok_iff h.known).1 h.resolved
  exact ⟨_, h.inTime, h.known, ⟨found, Prod.ext hres rfl, rfl⟩, hne⟩

theorem Tries.finds {candidates : List NetAddr} (h : s.Tries d network address n t candidates) :
    ∃ found, s.Finds d network address n found := by
  obtain ⟨found, hres, -⟩ := h.resolved
  exact ⟨found, h.inTime, h.network, (resolveDial_eq_ok_iff h.network).2 (by rw [hres])⟩

/-- One attempt is made at each candidate, on the network of the dial, and the
attempts are numbered by the places of the candidates. -/
theorem opened_of_finds (h : s.Finds d network address n found) :
    ∃ time options, openedSince s (s.dial d network address).2 =
      (d.candidates n found).zipIdx.map fun p => ⟨p.2, n, p.1, time, options⟩ := by
  by_cases hnil : d.candidates n found = []
  · have hdial := dial_of_network address h.inTime h.known
    rw [(resolveDial_eq_ok_iff h.known).1 h.resolved, afterResolution, if_pos hnil] at hdial
    refine ⟨s.now, d.options (d.effectiveDeadline s.now), ?_⟩
    rw [hdial, hnil]
    exact openedSince_of_idle (resolve_idle s _ _ n address)
  · obtain ⟨t, htries⟩ := h.tries hnil
    exact ⟨t.now, _, openedSince_of_tries htries⟩

/-- The addresses that are attempted are the candidates. -/
theorem addrs_of_finds (h : s.Finds d network address n found) :
    (openedSince s (s.dial d network address).2).map Opening.addr = d.candidates n found := by
  obtain ⟨time, options, hopened⟩ := opened_of_finds h
  rw [hopened, List.map_map]
  exact List.zipIdx_map_fst 0 _

theorem networks_of_finds (h : s.Finds d network address n found) :
    ∀ o ∈ openedSince s (s.dial d network address).2, o.network = n := by
  obtain ⟨time, options, hopened⟩ := opened_of_finds h
  intro o ho
  rw [hopened] at ho
  obtain ⟨p, -, rfl⟩ := List.mem_map.1 ho
  rfl

theorem calls_of_finds (h : s.Finds d network address n found) :
    (openedSince s (s.dial d network address).2).map Opening.call =
      List.range (openedSince s (s.dial d network address).2).length := by
  obtain ⟨time, options, hopened⟩ := opened_of_finds h
  rw [hopened, List.map_map, List.length_map, List.length_zipIdx, List.range_eq_range']
  exact List.zipIdx_map_snd 0 _

theorem finds_of_opened (h : openedSince s (s.dial d network address).2 ≠ []) :
    ∃ n found, s.Finds d network address n found := by
  rcases tries_or_resolves s d network address with
    ⟨n, t, candidates, htries⟩ | hsame | ⟨n, hres⟩
  · exact ⟨n, htries.finds⟩
  · rw [hsame] at h
    exact absurd (openedSince_of_idle (.refl s)) h
  · rw [hres] at h
    exact absurd (openedSince_of_idle (resolve_idle s _ _ n address)) h

end Session

namespace Dialer

variable {d : Dialer} {n : Network} {found : AddrList}

theorem candidates_of_tcp (h : ∃ family, n = .tcp family) :
    d.candidates n found = (found.select (d.filter.select found.ips)).addrs := by
  obtain ⟨family, rfl⟩ := h
  rfl

theorem candidates_of_not_tcp (h : ∀ family, n ≠ .tcp family) :
    d.candidates n found = (found.select (d.filter.select found.ips)).addrs.head?.toList := by
  rw [← List.take_one]
  cases n with
  | tcp family => exact absurd rfl (h family)
  | udp family => rfl
  | ip family protocol => rfl
  | unix kind => rfl

/-- A filter invents no address, whichever indices it answers with. -/
theorem mem_found_of_mem_candidates {a : NetAddr} (h : a ∈ d.candidates n found) :
    a ∈ found.addrs := by
  have hpicked : a ∈ (found.select (d.filter.select found.ips)).addrs := by
    unfold candidates at h
    simp only at h
    split at h
    · exact h
    · exact List.mem_of_mem_take h
  rw [AddrList.select_addrs, List.mem_filterMap] at hpicked
  obtain ⟨i, -, hi⟩ := hpicked
  exact List.mem_of_getElem? hi

end Dialer

namespace Session

variable {s t : Session} {d : Dialer} {network address : Text} {n : Network} {u : Nat}
  {r : Resolver}

/-! ## What each stage tells -/

theorem tells_resolve (dir : Directory) (deadline : Option Nat) (n : Network) (address : Text)
    (h : (s.resolve dir deadline n address).2.now ≤ u) :
    Tells u s (s.resolve dir deadline n address).2 [] := by
  unfold resolve at h ⊢
  split
  · exact .refl s
  · exact .refl s
  · exact .refl s
  · rename_i host zone port heq
    rw [heq] at h
    simp only at h
    unfold resolveName at h ⊢
    split
    · exact .refl s
    · rename_i hin
      rw [if_neg hin] at h
      have hlookup := tells_await (u := u) deadline (dir.resolver.lookup host) s
      unfold lookup at h ⊢
      split <;> rename_i heq <;> rw [heq] at h hlookup <;> exact hlookup h

theorem tells_openAll (s : Session) (n : Network) (options : ConnectOptions)
    (candidates : List NetAddr) : Tells u s (s.openAll n options candidates) [] := by
  unfold openAll
  generalize candidates.zipIdx = calls
  induction calls generalizing s with
  | nil => exact .refl s
  | cons p calls ih =>
    have hopen : Tells u s (s.recordOpening p.2 n p.1 options) [] := .of_same rfl rfl
    exact hopen.after (ih _)

/-- Attempts that are waited for are reported by then. -/
theorem tells_receive {attempts : List Attempt} (h : ∀ a ∈ attempts, a.finish ≤ u) :
    Tells u s (s.receive r attempts) (r.hears attempts) := by
  induction attempts generalizing s with
  | nil => exact .refl s
  | cons a attempts ih =>
    rw [List.forall_mem_cons] at h
    rw [Resolver.hears_cons]
    exact ((tells_runTo s h.1).after (tells_notify _ r a)).trans (ih h.2)

/-- Attempts that are left to themselves are reported when they end. -/
theorem tells_abandon (attempts : List Attempt) (hs : s.now ≤ u) :
    Tells u s (s.abandon r attempts) (r.hears (attempts.filter fun a => a.finish ≤ u)) := by
  have hdefer : Tells u s (attempts.foldl (fun s a => s.defer a.finish (.attempt a r)) s)
      (r.hears (attempts.filter fun a => a.finish ≤ u)) := by
    clear hs
    induction attempts generalizing s with
    | nil => exact .refl s
    | cons a attempts ih =>
      have hone := tells_defer (u := u) s a.finish (.attempt a r)
      unfold Task.tellsBy at hone
      by_cases ha : a.finish ≤ u
      · rw [List.filter_cons_of_pos (by simpa using ha), Resolver.hears_cons]
        rw [if_pos ha] at hone
        exact hone.trans ih
      · rw [List.filter_cons_of_neg (by simpa using ha)]
        rw [if_neg ha] at hone
        exact hone.after ih
  exact hdefer.before (tells_runTo _ hs)

/-- The wait for attempts is not over before they are. -/
theorem finish_le_of_receive {attempts : List Attempt} (h : (s.receive r attempts).now ≤ u) :
    ∀ a ∈ attempts, a.finish ≤ u := by
  induction attempts generalizing s with
  | nil => simp
  | cons a attempts ih =>
    rw [List.forall_mem_cons]
    refine ⟨?_, ih h⟩
    have hclock := (receive_idle ((s.runTo a.finish).notify r a.event) r attempts).clock
    have hfirst : (s.runTo a.finish).now ≤ u := Nat.le_trans hclock h
    rw [runTo_now] at hfirst
    exact (Nat.max_le.1 hfirst).2

theorem filter_of_ended {attempts : List Attempt} (h : ∀ a ∈ attempts, a.finish ≤ u) :
    attempts.filter (fun a => a.finish ≤ u) = attempts :=
  List.filter_eq_self.2 (by simpa using h)

/-- Of its attempts, a dial that tries candidates tells those that have ended. -/
theorem tells_connect {options : ConnectOptions} (d : Dialer) (network : Text) (n : Network)
    (candidates : List NetAddr) (h : (s.connect d network n options candidates).2.now ≤ u) :
    Tells u s (s.connect d network n options candidates).2
      (d.resolver.hears ((d.arrivals n options s.now candidates).filter fun a => a.finish ≤ u)) := by
  have hopen := tells_openAll (u := u) s n options candidates
  rcases connect_cases s d network n options candidates with
    ⟨before, a, after, horder, -, -, hc⟩ | ⟨-, hc⟩
  · rw [hc] at h ⊢
    have hsplit : d.arrivals n options s.now candidates = (before ++ [a]) ++ after := by
      rw [horder, List.append_assoc, List.singleton_append]
    have hnow : ((s.openAll n options candidates).receive d.resolver (before ++ [a])).now ≤ u := by
      rw [← abandon_now _ d.resolver after]
      exact h
    have hends := finish_le_of_receive hnow
    rw [hsplit, List.filter_append, filter_of_ended hends, Resolver.hears_append]
    have habandon := (hopen.after (tells_receive hends)).trans
      (tells_abandon (r := d.resolver) after hnow)
    exact habandon.before (.of_same rfl rfl)
  · rw [hc] at h ⊢
    have hends := finish_le_of_receive h
    rw [filter_of_ended hends]
    exact hopen.after (tells_receive hends)

/-- What a dial tells: the calls that it made and that have ended, each once. -/
theorem tells_dial (s : Session) (d : Dialer) (network address : Text)
    (h : (s.dial d network address).2.now ≤ u) :
    Tells u s (s.dial d network address).2
      (d.resolver.hears
        (d.connector.endedBy u (openedSince s (s.dial d network address).2))) := by
  rcases tries_or_resolves s d network address with
    ⟨n, t, candidates, htries⟩ | hsame | ⟨n, hres⟩
  · have hended : d.connector.endedBy u (openedSince s (s.dial d network address).2) =
        (d.attempts n (d.options (d.effectiveDeadline s.now)) t.now candidates).filter
          fun a => a.finish ≤ u := by
      rw [openedSince_of_tries htries, Connector.endedBy, List.filterMap_map]
      rfl
    rw [hended]
    rw [dial_of_tries htries] at h ⊢
    obtain ⟨found, hres, -⟩ := htries.resolved
    have hresolve := tells_resolve (s := s) (u := u) d.toDirectory
      (d.effectiveDeadline s.now) n address
    rw [hres] at hresolve
    have ht : t.now ≤ u := Nat.le_trans (le_connect_now t d network n _ candidates) h
    exact (hresolve ht).after ((tells_connect d network n candidates h).perm
      (Resolver.hears_perm ((d.arrivals_perm n _ t.now candidates).filter _)))
  · rw [hsame, openedSince_of_idle (.refl s)]
    exact .refl s
  · rw [hres] at h ⊢
    rw [openedSince_of_idle (resolve_idle s _ _ n address)]
    exact tells_resolve _ _ n address h

/-- The attempts of a race are reported once each, whatever they come to, in
whatever order they arrive and whenever the race is decided. -/
theorem heard_of_race {count : Nat} {attempt : Nat → Attempt} {steps : List RaceStep} {race : Race}
    {received late : List Attempt}
    (hrun : Race.run (fun i => (attempt i).succeeds) (Race.start count) steps = some race)
    (hfinished : race.running = [])
    (horder : received ++ late = (Race.arrivals steps).map attempt) (hs : s.now ≤ u)
    (hends : ∀ i < count, (attempt i).finish ≤ u) :
    ((((s.receive r received).abandon r late).runTo u).heard).Perm
      (s.heardBy u ++ r.hears ((List.range count).map attempt)) := by
  obtain ⟨taken, lost, H⟩ := Race.history_run hrun
  have hall : (received ++ late).Perm ((List.range count).map attempt) := by
    rw [horder]
    exact (Race.arrivals_of_finished H hfinished).map attempt
  have hfinish : ∀ a ∈ received ++ late, a.finish ≤ u := by
    intro a ha
    obtain ⟨i, hi, rfl⟩ := List.mem_map.1 (hall.mem_iff.1 ha)
    exact hends i (List.mem_range.1 hi)
  obtain ⟨hreceived, hlate⟩ := List.forall_mem_append.1 hfinish
  have htells := (tells_receive (s := s) (r := r) hreceived).trans
    (tells_abandon (r := r) late (receive_now_le hs hreceived))
  rw [filter_of_ended hlate, ← Resolver.hears_append] at htells
  exact (heard_runTo _ u).trans (htells.perm (Resolver.hears_perm hall))

/-- **Attempts.** A dial that has time left and finds addresses calls its
connector once for each address that the filter picks, on a network that is raced,
and else once with the first of these; the calls are numbered in this order. An
index without address is no pick, and the connector is called with no other
address and by no other dial. By any instant from the return of the dial on, what
the servers of its resolver have heard more than they would have without the dial
is each call that has ended, once: its event has the address of the call, and an
error exactly if the call got no connection. It is so too for a race whose
attempts come to anything and end in any order. An event passes through caches,
boxes and shares as it is and through a chain to each of its members. -/
theorem dial_attempts_reported (s : Session) (d : Dialer) (network address : Text) :
    let dialed := s.dial d network address
    let opened := openedSince s dialed.2
    (∀ n found, s.Finds d network address n found →
      let picked := (found.select (d.filter.select found.ips)).addrs
      ((∃ family, n = .tcp family) → opened.map Opening.addr = picked) ∧
      ((∀ family, n ≠ .tcp family) → opened.map Opening.addr = picked.head?.toList) ∧
      opened.map Opening.call = List.range opened.length ∧
      ∀ o ∈ opened, o.network = n ∧ o.addr ∈ found.addrs) ∧
    (opened ≠ [] → ∃ n found, s.Finds d network address n found) ∧
    (∀ u, dialed.2.now ≤ u →
      ((dialed.2.runTo u).heard).Perm
        (s.heardBy u ++ d.resolver.hears (d.connector.endedBy u opened)) ∧
      ((∀ o ∈ opened, ∃ a, d.connector.attemptOf? o = some a ∧ a.finish ≤ u) →
        opened.map d.connector.attemptOf? = (d.connector.endedBy u opened).map some)) ∧
    (∀ o ∈ opened, ∀ a, d.connector.attemptOf? o = some a →
      a.event.network = o.network ∧ a.event.addr = o.addr ∧
        (a.event.error = none ↔ d.connector.Connects o)) ∧
    (∀ (t : Session) (count : Nat) (attempt : Nat → Attempt) (steps : List RaceStep) (race : Race)
      (received late : List Attempt) (u : Nat),
      Race.run (fun i => (attempt i).succeeds) (Race.start count) steps = some race →
      race.running = [] → received ++ late = (Race.arrivals steps).map attempt →
      t.now ≤ u → (∀ i < count, (attempt i).finish ≤ u) →
      ((((t.receive d.resolver received).abandon d.resolver late).runTo u).heard).Perm
        (t.heardBy u ++ d.resolver.hears ((List.range count).map attempt))) ∧
    (∀ (r q : Resolver) e time, r.Wraps q → r.notify e time = q.notify e time) ∧
    ∀ (members : List Resolver) e time,
      (Resolver.chain members).notify e time = members.flatMap fun r => r.notify e time := by
  intro dialed opened
  refine ⟨fun n found hfinds => ?_, finds_of_opened, fun u hu => ⟨?_, ?_⟩, ?_, ?_, ?_, ?_⟩
  · intro picked
    have haddrs := addrs_of_finds hfinds
    refine ⟨fun htcp => ?_, fun hother => ?_, calls_of_finds hfinds,
      fun o ho => ⟨networks_of_finds hfinds o ho, ?_⟩⟩
    · exact haddrs.trans (Dialer.candidates_of_tcp htcp)
    · exact haddrs.trans (Dialer.candidates_of_not_tcp hother)
    · have hmem : o.addr ∈ opened.map Opening.addr := List.mem_map_of_mem ho
      rw [haddrs] at hmem
      exact Dialer.mem_found_of_mem_candidates hmem
  · exact (heard_runTo _ u).trans (tells_dial s d network address hu)
  · exact Connector.map_attemptOf?_of_ended
  · exact fun o _ a => Connector.event_of_attemptOf?
  · intro t count attempt steps race received late u hrun hfinished horder hnow hends
    exact heard_of_race hrun hfinished horder hnow hends
  · exact fun r q e time h => Resolver.notify_of_wraps h e time
  · exact Resolver.notify_chain

end Session

/-- The second mirror wins, the first fails afterwards, and the third never
answers. -/
def staggeredResults : List Connecting :=
  [⟨some 6, some (.root .connectDenied)⟩, ⟨some 4, none⟩, .never]

/-- The watcher hears of the winner, of the attempt that fails later and of the
one that is cut off, once each. -/
theorem dial_attempts_reported_staggered :
    let dialed := Session.nobodyKnown.dial (mirrorDialer staggeredResults) "tcp".toList
      "mirror:80".toList
    dialed.2.now ≤ 10 ∧ (dialed.2.runTo 10).heard.Perm
      [(watcher, ⟨.tcp .any, mirrorAddr 1, 6, some (.root .connectDenied)⟩),
        (watcher, ⟨.tcp .any, mirrorAddr 2, 4, none⟩),
        (watcher, ⟨.tcp .any, mirrorAddr 3, 10, some (.root .timeout)⟩)] := by
  intro dialed
  have hnow : dialed.2.now ≤ 10 :=
    (Session.dial_bounded (d := mirrorDialer staggeredResults) "tcp".toList "mirror:80".toList rfl
      (by decide)).2
  obtain ⟨-, -, hreports, -⟩ := Session.dial_attempts_reported Session.nobodyKnown
    (mirrorDialer staggeredResults) "tcp".toList "mirror:80".toList
  have hheard := (hreports 10 hnow).1
  rw [Session.openedSince_of_tries (mirror_tries staggeredResults)] at hheard
  exact ⟨hnow, hheard⟩

end NetDial
