import NetDial.Proofs.Session.Background

/-!
# Runs of lookups

What a lookup did, in the order in which it did it, and how it ended: with an
answer, or waiting for a server that does not reply (`Lookup.Runs`). Nothing is
assumed of the replies, nor of what caches hold, so the runs of a lookup are all
that it may do anywhere.

**Results.**
* `runs_bind_iff`: the runs of two lookups, one after the other.
* `exists_runs_of_await`: waiting for a lookup in a session is one of its runs, and
  while nothing else goes on the servers are asked just what the run says.
-/
namespace NetDial

/-- What a lookup does: it asks a server, which replies or does not; it looks into
a cache, or stores addresses there. -/
inductive LookupEvent where
  | asked (server : Server) (host : Domain) (answer : Answer)
  | unanswered (server : Server) (host : Domain)
  | consulted (cache : Nat) (host : Domain) (found : Option (List Ip))
  | stored (cache : Nat) (ttl : Nat) (host : Domain) (ips : List Ip)

/-- The server that is asked, and for which host. -/
def LookupEvent.question? : LookupEvent → Option (Server × Domain)
  | asked server host _ => some (server, host)
  | unanswered server host => some (server, host)
  | consulted _ _ _ => none
  | stored _ _ _ _ => none

namespace Lookup

/-- The lookup does just this, and then has this answer, or waits without one. -/
inductive Runs : Lookup → List LookupEvent → Option Answer → Prop where
  | done (a : Answer) : Runs (.done a) [] (some a)
  | ask {server : Server} {host : Domain} {next : Answer → Lookup} {a : Answer}
      {events : List LookupEvent} {outcome : Option Answer} (h : Runs (next a) events outcome) :
      Runs (.ask server host next) (.asked server host a :: events) outcome
  | wait (server : Server) (host : Domain) (next : Answer → Lookup) :
      Runs (.ask server host next) [.unanswered server host] none
  | consult {number : Nat} {host : Domain} {next : Option (List Ip) → Lookup}
      {found : Option (List Ip)} {events : List LookupEvent} {outcome : Option Answer}
      (h : Runs (next found) events outcome) :
      Runs (.consult number host next) (.consulted number host found :: events) outcome
  | store {number ttl : Nat} {host : Domain} {ips : List Ip} {next : Lookup}
      {events : List LookupEvent} {outcome : Option Answer} (h : Runs next events outcome) :
      Runs (.store number ttl host ips next) (.stored number ttl host ips :: events) outcome

variable {l : Lookup} {f : Answer → Lookup} {events front back : List LookupEvent}
  {outcome : Option Answer} {a : Answer}

theorem runs_done_iff : (done a).Runs events outcome ↔ events = [] ∧ outcome = some a :=
  ⟨fun h => by cases h; exact ⟨rfl, rfl⟩, fun ⟨he, ho⟩ => he ▸ ho ▸ .done a⟩

theorem Runs.bind (h : l.Runs front (some a)) (hback : (f a).Runs back outcome) :
    (l.bind f).Runs (front ++ back) outcome := by
  generalize ho : some a = o at h
  induction h with
  | done b => cases ho; exact hback
  | ask _ ih => exact .ask (ih ho)
  | wait server host next => cases ho
  | consult _ ih => exact .consult (ih ho)
  | store _ ih => exact .store (ih ho)

theorem Runs.bind_none (h : l.Runs events none) : (l.bind f).Runs events none := by
  generalize ho : none = o at h
  induction h with
  | done b => cases ho
  | ask _ ih => subst ho; exact .ask (ih rfl)
  | wait server host next => exact .wait server host _
  | consult _ ih => subst ho; exact .consult (ih rfl)
  | store _ ih => subst ho; exact .store (ih rfl)

theorem Runs.of_bind (h : (l.bind f).Runs events outcome) :
    (∃ front a back, l.Runs front (some a) ∧ (f a).Runs back outcome ∧ events = front ++ back) ∨
      outcome = none ∧ l.Runs events none := by
  induction l generalizing events with
  | done a => exact .inl ⟨[], a, events, .done a, h, rfl⟩
  | ask server host next ih =>
    cases h with
    | ask h =>
      rcases ih _ h with ⟨front, a, back, hfront, hback, rfl⟩ | ⟨hnone, hwait⟩
      · exact .inl ⟨_, a, back, .ask hfront, hback, rfl⟩
      · exact .inr ⟨hnone, .ask hwait⟩
    | wait => exact .inr ⟨rfl, .wait server host next⟩
  | consult number host next ih =>
    cases h with
    | consult h =>
      rcases ih _ h with ⟨front, a, back, hfront, hback, rfl⟩ | ⟨hnone, hwait⟩
      · exact .inl ⟨_, a, back, .consult hfront, hback, rfl⟩
      · exact .inr ⟨hnone, .consult hwait⟩
  | store number ttl host ips next ih =>
    cases h with
    | store h =>
      rcases ih h with ⟨front, a, back, hfront, hback, rfl⟩ | ⟨hnone, hwait⟩
      · exact .inl ⟨_, a, back, .store hfront, hback, rfl⟩
      · exact .inr ⟨hnone, .store hwait⟩

/-- The second lookup runs on from the answer of the first; if that waits, so do
both. -/
theorem runs_bind_iff :
    (l.bind f).Runs events outcome ↔
      (∃ front a back, l.Runs front (some a) ∧ (f a).Runs back outcome ∧ events = front ++ back) ∨
        outcome = none ∧ l.Runs events none := by
  refine ⟨Runs.of_bind, ?_⟩
  rintro (⟨front, a, back, hfront, hback, rfl⟩ | ⟨rfl, hwait⟩)
  · exact hfront.bind hback
  · exact hwait.bind_none

end Lookup

/-! ## In a session -/

/-- The answer, if it came. -/
def Awaited.answer? : Awaited → Option Answer
  | .answered a => some a
  | .late => none
  | .forever => none

namespace Session

variable {s : Session}

/-- Waiting for a lookup is one of its runs. While nothing else goes on, the
servers are asked what the run says, in the same order, and nothing more. -/
theorem exists_runs_of_await (s : Session) (l : Lookup) :
    ∃ events, l.Runs events (s.await none l).1.answer? ∧
      (s.tasks = [] → ∃ asked : List Question,
        (s.await none l).2.record.questions = s.record.questions ++ asked ∧
          asked.map (fun q => (q.server, q.host)) = events.filterMap LookupEvent.question?) := by
  induction l generalizing s with
  | done a => exact ⟨[], .done a, fun _ => ⟨[], (List.append_nil _).symm, rfl⟩⟩
  | consult number host next ih =>
    obtain ⟨events, hruns, hasked⟩ := ih (s.fresh? number host) s
    exact ⟨_, .consult hruns, hasked⟩
  | store number ttl host ips next ih =>
    obtain ⟨events, hruns, hasked⟩ := ih (s.store number ttl host ips)
    exact ⟨_, .store hruns, hasked⟩
  | ask server host next ih =>
    rcases hreply : s.reply server host with ⟨delay, a⟩
    cases delay with
    | none =>
      rw [await_ask_forever next hreply]
      exact ⟨_, .wait server host next, fun _ => ⟨[⟨server, host, s.now⟩], rfl, rfl⟩⟩
    | some d =>
      obtain ⟨events, hruns, hasked⟩ := ih a ((s.ask server host).runTo (s.now + d))
      rw [await_ask_answered next hreply]
      refine ⟨_, .ask hruns, fun hquiet => ?_⟩
      have hask : (s.ask server host).tasks = [] := hquiet
      obtain ⟨asked, hquestions, hmap⟩ := hasked (tasks_runTo_of_quiet hask _)
      rw [questions_runTo_of_quiet hask] at hquestions
      refine ⟨⟨server, host, s.now⟩ :: asked, ?_, congrArg ((server, host) :: ·) hmap⟩
      rw [hquestions]
      exact List.append_assoc s.record.questions [⟨server, host, s.now⟩] asked

end Session
end NetDial
