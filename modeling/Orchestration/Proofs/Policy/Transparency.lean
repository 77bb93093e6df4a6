import Orchestration.Proofs.Call.Counting
import Orchestration.Proofs.Call.Endings
import Orchestration.Proofs.Policy.Fates
import Orchestration.Proofs.Policy.Nests

/-! # What policies let pass

A value, and a failure that nothing recovers from, goes through any layers of policies as it is and
at once. As long as no time limit is over, a poll of the layered agent does what a poll of the call
at its base does and nothing else. -/

namespace Orchestration

variable {ι ω : Kind} {α : Type}

/-- The ending is a value or a failure that nothing recovers from. -/
def Ending.Final : Ending α → Prop
  | .value _ => True
  | .failure f => f.recoverable = false
  | .fault _ => False

namespace Call

variable {body body' call : Call α} {ending : Ending α} {s s' s₁ : Session}
  {polls : List (Session × Session)}

theorem poll_andThen_congr (h : body.poll s = body'.poll s₁) (next : Ending α → Call α) :
    (andThen body next).poll s = (andThen body' next).poll s₁ := by
  rw [poll, poll, h]

theorem poll_within_congr (h : body.poll s = body'.poll s₁) (deadline : Timer) (scope : Context)
    (late : Ending α) : (within deadline scope late body).poll s =
      (within deadline scope late body').poll s₁ := by
  rw [poll, poll, h]

/-! ## Layers around a call -/

/-- The second call is the first one under time limits and with work to follow that passes final
endings on. -/
inductive Around (call : Call α) : List Timer → Call α → Prop where
  | here : Around call [] call
  | andThen {outer : Call α} {deadlines : List Timer} {next : Ending α → Call α}
      (h : Around call deadlines outer)
      (hnext : ∀ ending : Ending α, ending.Final → next ending = .finish ending) :
      Around call deadlines (.andThen outer next)
  | within {outer : Call α} {deadlines : List Timer} (h : Around call deadlines outer)
      (deadline : Timer) (scope : Context) (late : Ending α) :
      Around call (deadline :: deadlines) (.within deadline scope late outer)

namespace Around

variable {rest outer : Call α} {deadlines : List Timer}

/-- When the inner call comes to a final ending, so does the whole, in the same poll. -/
theorem poll_of_ended (h : Around call deadlines outer) (hfinal : ending.Final)
    (hpoll : call.poll s = (.ended ending, s')) : outer.poll s = (.ended ending, s') := by
  induction h with
  | here => exact hpoll
  | andThen _ hnext ih =>
      rw [poll_andThen_of_ended ih, hnext ending hfinal]
      rfl
  | within _ deadline scope late ih => rw [poll, ih]

/-- While the inner call waits and no time limit is over, the whole waits too. -/
theorem poll_of_waiting (h : Around call deadlines outer)
    (hpoll : call.poll s = (.waiting rest, s')) (hearly : ∀ t ∈ deadlines, s'.now < t.due) :
    ∃ outer', outer.poll s = (.waiting outer', s') ∧ Around rest deadlines outer' := by
  induction h with
  | here => exact ⟨rest, hpoll, .here⟩
  | andThen _ hnext ih =>
      obtain ⟨outer', houter, haround⟩ := ih hearly
      exact ⟨_, poll_andThen_of_waiting houter _, haround.andThen hnext⟩
  | @within outer deadlines _ deadline scope late ih =>
      obtain ⟨hdeadline, hrest⟩ := List.forall_mem_cons.mp hearly
      obtain ⟨outer', houter, haround⟩ := ih hrest
      exact ⟨_, poll_within_of_not_due houter (Nat.not_le_of_lt hdeadline),
        haround.within deadline scope late⟩

/-- So the whole does in every poll what the inner call does, and ends as it does. -/
theorem ends (h : Around call deadlines outer) (hfinal : ending.Final)
    (hends : Ends (fun s => ∀ t ∈ deadlines, s.now < t.due) call polls ending) :
    Ends (fun _ => True) outer polls ending := by
  induction hends generalizing outer with
  | ended hpoll => exact .ended (h.poll_of_ended hfinal hpoll)
  | waits hpoll hearly _ ih =>
      obtain ⟨outer', houter, haround⟩ := h.poll_of_waiting hpoll hearly
      exact .waits houter trivial (ih haround hfinal)

end Around

end Call

/-! ## Layers of policies -/

theorem captureFault_of_final (name : String) (ending : Ending α) (h : ending.Final) :
    captureFault name ending = .finish ending := by
  cases ending with
  | value v => rfl
  | failure f => rfl
  | fault f => exact h.elim

namespace Agent

variable {a : Agent ι ω} {input : Datum ι} {c : Context}

theorem around_execute {call outer : Call (Datum ω)} {deadlines : List Timer}
    (h : Call.Around call deadlines outer) (name : String) :
    Call.Around call deadlines (outer.andThen (captureFault name)) :=
  h.andThen (captureFault_of_final name)

/-- A final ending of an attempt is the last one. -/
theorem exists_attempts_eq (a : Agent ι ω) (backoff : Backoff) (c : Context) (left : Nat)
    {failures : Nat} (hcopy : ∀ f, input.copy failures ≠ .error f) : ∃ next,
      a.attempts backoff input c left failures = (a.execute input c).andThen next ∧
      ∀ ending : Ending (Datum ω), ending.Final → next ending = .finish ending := by
  rw [attempts, withCopy_of_copies hcopy]
  refine ⟨_, rfl, fun ending hfinal => ?_⟩
  cases ending with
  | value v => rfl
  | failure f => exact if_neg (Bool.eq_false_iff.mp hfinal)
  | fault f => exact hfinal.elim

/-- A final ending of the primary agent leaves the stand-in alone. -/
theorem exists_start_orElse_eq (a fallback : Agent ι ω) (hcopy : ∀ f, input.copy 0 ≠ .error f)
    (c : Context) : ∃ next,
      (a.orElse fallback).start input c = (a.execute input c).andThen next ∧
      ∀ ending : Ending (Datum ω), ending.Final → next ending = .finish ending := by
  refine ⟨_, withCopy_of_copies hcopy _, fun ending hfinal => ?_⟩
  cases ending with
  | value v => rfl
  | failure f => exact if_neg (Bool.eq_false_iff.mp hfinal)
  | fault f => exact hfinal.elim

end Agent

/-- How the agent at the base is first called: under which context, in which session, and which time
limits are set by then. -/
structure FirstCall where
  context : Context
  session : Session
  deadlines : List Timer

namespace Nest

/-- The agent at the base, where primary agents are followed. -/
def core : Nest ι ω → Agent ι ω
  | base a => a
  | renamed inner _ => inner.core
  | retrying inner _ => inner.core
  | timingOut inner _ => inner.core
  | orElse primary _ => primary.core

/-- How the core is first called when the whole is called under a context. -/
def firstCall : Nest ι ω → Context → Session → FirstCall
  | base _, c, s => ⟨c, s, []⟩
  | renamed inner _, c, s => inner.firstCall c s
  | retrying inner _, c, s => inner.firstCall c s
  | timingOut inner limit, c, s =>
    let e := inner.firstCall (s.derive c).1 (s.timed c limit)
    { e with deadlines := ⟨s.now + limit.waitMillis, s.timers⟩ :: e.deadlines }
  | orElse primary _, c, s => primary.firstCall c s

/-- Until the core is called, the layers only hand out tokens and set timers. -/
theorem exists_session_firstCall_eq (t : Nest ι ω) (c : Context) (s : Session) :
    ∃ timers nextToken, (t.firstCall c s).session =
      { s with timers, registry := { s.registry with nextToken } } := by
  induction t generalizing c s with
  | base a => exact ⟨_, _, rfl⟩
  | renamed inner name ih => exact ih c s
  | retrying inner p ih => exact ih c s
  | timingOut inner limit ih =>
      obtain ⟨timers, nextToken, h⟩ := ih (s.derive c).1 (s.timed c limit)
      exact ⟨timers, nextToken, h⟩
  | orElse primary fallback ih => exact ih c s

/-- The first poll of the whole is one of the core's call with layers around it. -/
theorem exists_around (t : Nest ι ω) {input : Datum ι} (hcopy : ∀ f, input.copy 0 ≠ .error f)
    (c : Context) (s : Session) :
    let e := t.firstCall c s
    ∃ outer, (t.agent.start input c).poll s = outer.poll e.session ∧
      Call.Around (t.core.start input e.context) e.deadlines outer := by
  induction t generalizing c s with
  | base a => exact ⟨_, rfl, .here⟩
  | renamed inner name ih => exact ih c s
  | retrying inner p ih =>
      obtain ⟨outer, hpoll, haround⟩ := ih c s
      obtain ⟨next, hattempts, hnext⟩ :=
        inner.agent.exists_attempts_eq p.backoff c p.furtherAttempts hcopy
      refine ⟨_, ?_, (Agent.around_execute haround inner.agent.name).andThen hnext⟩
      exact (congrArg (·.poll s) hattempts).trans
        (Call.poll_andThen_congr (Call.poll_andThen_congr hpoll _) next)
  | timingOut inner limit ih =>
      obtain ⟨outer, hpoll, haround⟩ := ih (s.derive c).1 (s.timed c limit)
      refine ⟨_, ?_, (Agent.around_execute haround inner.agent.name).within
        ⟨s.now + limit.waitMillis, s.timers⟩ (s.derive c).1
        (.failure (.timeout (c.node.getD "") limit))⟩
      rw [agent, Agent.poll_timingOut]
      exact Call.poll_within_congr (Call.poll_andThen_congr hpoll _) _ _ _
  | orElse primary fallback ih =>
      obtain ⟨outer, hpoll, haround⟩ := ih c s
      obtain ⟨next, hstart, hnext⟩ :=
        primary.agent.exists_start_orElse_eq fallback.agent hcopy c
      refine ⟨_, ?_, (Agent.around_execute haround primary.agent.name).andThen hnext⟩
      exact (congrArg (·.poll s) hstart).trans
        (Call.poll_andThen_congr (Call.poll_andThen_congr hpoll _) next)

/-- If the first call of the core comes to a value, or to a failure that nothing recovers from,
while no time limit around it is over, then so does the whole, in the same poll. Before that call
the layers only hand out tokens and set timers, and from then on each poll of the whole makes of the
session what the poll of the core's call makes of it. So if the core counts its calls, it is called
once, and nothing else is called. A time limit may be over in the last poll, and the context may be
cancelled. -/
theorem transparent (t : Nest ι ω) {input : Datum ι} (hcopy : ∀ f, input.copy 0 ≠ .error f)
    (c : Context) (s : Session) :
    let first := t.firstCall c s
    (∃ timers nextToken, first.session =
      { s with timers, registry := { s.registry with nextToken } }) ∧
    ∀ (ending : Ending (Datum ω)) (s' : Session) (polls : List (Session × Session)), ending.Final →
      (t.core.start input first.context).Ends (fun s => ∀ t ∈ first.deadlines, s.now < t.due)
        ((first.session, s') :: polls) ending →
      (t.agent.execute input c).Ends (fun _ => True) ((s, s') :: polls) ending ∧
      ∀ serial, t.core.Counted serial → ∀ agent,
        Call.callsIn ((s, s') :: polls) agent = if agent = serial then 1 else 0 := by
  have hquiet := t.exists_session_firstCall_eq c s
  refine ⟨hquiet, fun ending s' polls hfinal hends => ⟨?_, fun serial hcounted agent => ?_⟩⟩
  · obtain ⟨outer, hpoll, haround⟩ := t.exists_around hcopy c s
    have houter := (Agent.around_execute haround t.agent.name).ends hfinal hends
    exact houter.of_poll_eq (Call.poll_andThen_congr hpoll _)
  · obtain ⟨next, hstart, hnext⟩ := hcounted input (t.firstCall c s).context
    obtain ⟨timers, nextToken, hsession⟩ := hquiet
    rw [hstart] at hends
    have hcalls := hends.callsIn_of_number hnext agent
    rw [Call.callsIn_cons, hsession] at hcalls
    exact hcalls

/-- A call that takes three milliseconds and fails for good, under a time limit of just as many,
with further attempts and a stand-in. -/
def strict : Nest .text .text :=
  (base (.scripted 0 "strict" "strict" .shared
    ⟨none, false, none, some (.ofMillis 3), false, false, .failFatally "no"⟩ [])).withPolicies
      (some (.fixed 3 .zero)) (some (.ofMillis 3)) (some (.base (.constant 1 "other" (.ofText "x"))))

/-- A context that has been cancelled in the session after it. -/
def lateContext : Context := ⟨0, ⟨0, []⟩, none⟩

def lateSession : Session := Session.initial.cancel lateContext

/-- What is left of the core's call while it waits. -/
def strictRest : Call (Datum .text) :=
  .guarded ⟨"strict", 0, .dropped⟩ (.await (.timer ⟨3, 1⟩)
    (.act (.record ⟨"strict", 0, .failedFatally⟩) fun _ => .finish (.failure (.invalidPlan "no"))))

/-- The session while the call waits, and after it. -/
def strictSession (now : Nat) (later : List Entry) : Session :=
  ⟨now, 2, ⟨1, 0, [0]⟩, [(0, 1)], later ++ [⟨0, "strict", 0, .started (.text "x")⟩], [], []⟩

/-- Under a cancelled context, the failure comes through at the very time of the limit. -/
theorem transparent_strict :
    let first := strict.firstCall lateContext lateSession
    let polls := [(lateSession, strictSession 0 []),
      (strictSession 3 [], strictSession 3 [⟨3, "strict", 0, .failedFatally⟩])]
    lateSession.isCancelled lateContext = true ∧ first.deadlines = [⟨3, 0⟩] ∧
    (strict.agent.execute (.ofText "x") lateContext).Ends (fun _ => True) polls
      (.failure (.invalidPlan "no")) ∧
    Call.callsIn polls 0 = 1 ∧ Call.callsIn polls 1 = 0 := by
  have hwait : (strict.core.start (.ofText "x")
        (strict.firstCall lateContext lateSession).context).poll
        (strict.firstCall lateContext lateSession).session =
      (.waiting strictRest, strictSession 0 []) := rfl
  have hend : strictRest.poll (strictSession 3 []) = (.ended (.failure (.invalidPlan "no")),
      strictSession 3 [⟨3, "strict", 0, .failedFatally⟩]) := rfl
  have hdeadlines : (strict.firstCall lateContext lateSession).deadlines = [⟨3, 0⟩] := rfl
  have hearly : ∀ t ∈ (strict.firstCall lateContext lateSession).deadlines,
      (strictSession 0 []).now < t.due := by
    simp [hdeadlines, strictSession]
  obtain ⟨hends, hcalls⟩ := (strict.transparent (by simp [Datum.copy, Datum.ofText])
    lateContext lateSession).2 (.failure (.invalidPlan "no")) _ _ rfl
      (.waits hwait hearly (.ended hend))
  have hcounted := hcalls 0 (Agent.counted_scripted 0 "strict" "strict" .shared _ [])
  exact ⟨rfl, hdeadlines, hends, hcounted 0, hcounted 1⟩

end Nest

end Orchestration
