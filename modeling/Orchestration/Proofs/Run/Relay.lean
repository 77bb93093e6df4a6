import Orchestration.Proofs.Run.Alone
import Orchestration.Proofs.Timeline.Alone

/-! # Runs with one node in flight

As long as a run has a single node in flight and none that is ready, all that happens on a timeline
of its own is that this node's call is polled whenever its next timer is due. So what the call comes
to, the run observes at that very time, and it hands a value on to the node's only consumer or, if
there is none, succeeds. -/

namespace Orchestration

open List

namespace Timeline

variable {τ ρ : Type} [Activity τ ρ]

/-- What a timeline comes to after an instant at some time that left these slots. -/
def goOn (start horizon now : Nat) (left : List (Slot τ ρ) × Session) :
    List (Report ρ) × Session :=
  if (underway left.1).isEmpty then (reports left.1, left.2)
  else settle start horizon left.1 (left.2.advance (nextTime horizon left.1 now))

theorem settle_eq_goOn {start horizon : Nat} {slots : List (Slot τ ρ)} {s : Session}
    (h : s.now < horizon) :
    settle start horizon slots s = goOn start horizon s.now (instant start slots s) :=
  settle_of_lt h

end Timeline

open Timeline

namespace Stage

/-- The run goes on with just this call in flight. -/
structure Solo (g : Stage) (n : Node) (call : Call (Datum n.output)) : Prop where
  goes : g.verdict = .goesOn
  ready : g.run.ready = []
  tasks : g.run.tasks = [⟨n, call⟩]
  ended : g.run.ended = []

/-- The stage in which the only call in flight has been polled. -/
def afterPoll (g : Stage) (n : Node) :
    Progress (Call (Datum n.output)) (Ending (Datum n.output)) × Session → Stage
  | (.waiting rest, s) => { g with run := { g.run with tasks := [⟨n, rest⟩] }, session := s }
  | (.ended ending, s) =>
    { g with run := { g.run with tasks := [], ended := [⟨n, ending⟩] }, session := s }

variable {g : Stage} {n m : Node} {call rest : Call (Datum n.output)}
  {ending : Ending (Datum n.output)} {s : Session} {v : Value}

/-! ## Single turns -/

theorem Solo.of_waiting (h : g.Solo n call) (rest : Call (Datum n.output)) (s : Session) :
    (g.afterPoll n (.waiting rest, s)).Solo n rest :=
  ⟨h.goes, h.ready, rfl, h.ended⟩

/-- Unless it is cancelled, the run does nothing in its own turn. -/
theorem Solo.ownTurn_eq (h : g.Solo n call) (hcalm : g.session.isCancelled g.run.scope = false) :
    g.ownTurn = g := by
  have hround : g.round = g := by
    rw [round_eq, launch_of_ready_nil h.ready, if_neg (by simp [hcalm]), observe_of_nil h.ended,
      if_neg (by simp [h.tasks]), settle, h.goes]
  rw [ownTurn, h.ended, through_replicate_round h.goes, hround]
  rfl

/-- A turn of all tasks polls the call. -/
theorem Solo.taskTurn_none (h : g.Solo n call) :
    g.taskTurn none = g.afterPoll n (call.poll g.session) := by
  obtain ⟨⟨job, scope, ready, tasks, ended, outputs⟩, verdict, s, log⟩ := g
  obtain ⟨rfl, rfl, rfl, rfl⟩ := h
  simp only [taskTurn, Run.taskTurn, Task.pollWhere, Option.all_none, if_true]
  cases call.poll s with
  | mk state s' => cases state <;> rfl

/-- A turn of the tasks that wait for some timer does that or nothing. -/
theorem Solo.taskTurn_some (h : g.Solo n call) (timer : Timer) :
    g.taskTurn (some timer) = g ∨
      g.taskTurn (some timer) = g.afterPoll n (call.poll g.session) := by
  by_cases hwanted : call.nextTimer = some timer
  · right
    rw [← h.taskTurn_none]
    simp [taskTurn, Run.taskTurn, h.tasks, Task.pollWhere, hwanted]
  · left
    obtain ⟨⟨job, scope, ready, tasks, ended, outputs⟩, verdict, s, log⟩ := g
    obtain ⟨rfl, rfl, rfl, rfl⟩ := h
    simp [taskTurn, Run.taskTurn, Task.pollWhere, hwanted]

/-- Once the call has been polled, the tasks do nothing more at that time. -/
theorem Solo.taskTurn_afterPoll (h : g.Solo n call) (timer : Option Timer) :
    (g.afterPoll n (call.poll g.session)).taskTurn timer =
      g.afterPoll n (call.poll g.session) := by
  cases hpoll : call.poll g.session with
  | mk state s =>
      cases state with
      | waiting rest =>
          have hagain : (g.afterPoll n (.waiting rest, s)).afterPoll n (rest.poll s) =
              g.afterPoll n (.waiting rest, s) := by
            rw [Call.poll_again hpoll]
            rfl
          cases timer with
          | none => exact (h.of_waiting rest s).taskTurn_none.trans hagain
          | some timer =>
              obtain hidle | hpolled := (h.of_waiting rest s).taskTurn_some timer
              · exact hidle
              · exact hpolled.trans hagain
      | ended ending =>
          have hgoes : (g.afterPoll n (.ended ending, s)).verdict = .goesOn := h.goes
          rw [taskTurn_of_goesOn hgoes]
          rfl

/-- So in all their turns at one time, they poll the call once. -/
theorem Solo.tasksTurn_eq (h : g.Solo n call) (timers : List Timer) :
    g.tasksTurn timers = g.afterPoll n (call.poll g.session) := by
  obtain ⟨g', hg', hturn⟩ := tasksTurn_induction
    (P := fun g' => g' = g ∨ g' = g.afterPoll n (call.poll g.session)) (.inl rfl) (by
      rintro g' timer (rfl | rfl)
      · cases timer with
        | none => exact .inr h.taskTurn_none
        | some timer => exact h.taskTurn_some timer
      · exact .inr (h.taskTurn_afterPoll timer)) timers
  rw [hturn]
  obtain rfl | rfl := hg'
  · exact h.taskTurn_none
  · exact h.taskTurn_afterPoll none

/-- A call that waits leaves the run at rest. -/
theorem Solo.takeTurns_of_waiting (h : g.Solo n call)
    (hpoll : call.poll g.session = (.waiting rest, s))
    (hcalm : s.isCancelled g.run.scope = false) (start fuel : Nat) (c : Option Context) :
    takeTurns start (fuel + 1) [g.slot start c] g.session =
      ([(g.afterPoll n (.waiting rest, s)).slot start c], s) := by
  obtain ⟨timers, -, hquiet⟩ := g.exists_takeTurns_succ start fuel c
  rw [h.tasksTurn_eq, hpoll, (h.of_waiting rest s).ownTurn_eq hcalm] at hquiet
  exact hquiet fun hnews => hnews.2 h.ended

/-- When the call ends, the run observes that. -/
theorem Solo.takeTurns_of_ended (h : g.Solo n call)
    (hpoll : call.poll g.session = (.ended ending, s)) (start fuel : Nat) (c : Option Context) :
    let g' := (g.afterPoll n (.ended ending, s)).ownTurn
    takeTurns start (fuel + 1) [g.slot start c] g.session =
      takeTurns start fuel [g'.slot start c] g'.session := by
  obtain ⟨timers, hbusy, -⟩ := g.exists_takeTurns_succ start fuel c
  rw [h.tasksTurn_eq, hpoll] at hbusy
  exact hbusy ⟨h.goes, nofun⟩

/-! ## Over time -/

/-- Until the time comes, nothing happens to a run that is at rest. -/
theorem Solo.goOn_eq (h : g.Solo n call) (hcalm : g.session.isCancelled g.run.scope = false)
    {start horizon time : Nat} {c : Option Context}
    (htime : nextTime horizon [g.slot start c] g.session.now = time) (hearly : time < horizon) :
    let g' := { g with session := g.session.advance time }
    goOn start horizon g.session.now ([g.slot start c], g.session) =
      goOn start horizon time (takeTurns start (1 + g.run.job.plan.nodes.length)
        [g'.slot start c] g'.session) := by
  intro g'
  have h' : g'.Solo n call := ⟨h.goes, h.ready, h.tasks, h.ended⟩
  have hslot : g.slot start c = g'.slot start c := by
    rw [slot_of_goesOn h.goes, slot_of_goesOn h'.goes]
  have hunderway : (underway [g.slot start c]).isEmpty = false := by
    rw [slot_of_goesOn h.goes]
    rfl
  rw [goOn, if_neg (by simp [hunderway]), htime, settle_eq_goOn hearly, hslot]
  change goOn start horizon time (instant start [g'.slot start c] g'.session) = _
  rw [instant_eq, h'.ownTurn_eq hcalm, turnLimit_slot h'.goes]

variable {W : Session → Session → Prop} {I : Session → Prop}
  {Q : Ending (Datum n.output) → Session → Prop}

/-- What the call comes to, the run observes when it does. -/
theorem Solo.exists_observed (start horizon : Nat) (c : Option Context)
    (hW : ∀ (s : Session) (time : Nat), s.now < time → W s (s.advance time)) (h : g.Solo n call)
    (hcall : call.Until W none I Q g.session)
    (hI : ∀ s', I s' → s'.isCancelled g.run.scope = false)
    (hQ : ∀ ending s', Q ending s' → s'.now < horizon) {fuel : Nat} (hpositive : 0 < fuel)
    (hfuel : fuel ≤ 1 + g.run.job.plan.nodes.length) :
    ∃ ending s' left, Q ending s' ∧ fuel ≤ left + 1 ∧ left ≤ g.run.job.plan.nodes.length ∧
      let g' := (g.afterPoll n (.ended ending, s')).ownTurn
      goOn start horizon g.session.now (takeTurns start fuel [g.slot start c] g.session) =
        goOn start horizon s'.now (takeTurns start left [g'.slot start c] g'.session) := by
  obtain ⟨k, rfl⟩ : ∃ k, fuel = k + 1 := ⟨fuel - 1, by omega⟩
  generalize hs : g.session = s at hcall
  induction hcall generalizing g k with
  | @ended call s s' ending hpoll hends =>
      subst hs
      refine ⟨ending, s', k, hends, Nat.le_refl _, by omega, ?_⟩
      rw [h.takeTurns_of_ended hpoll, Call.now_of_poll hpoll]
  | @waits call rest s s' hpoll hholds hnext ih =>
      subst hs
      have hstill := Call.now_of_poll hpoll
      have hcalm := hI s' hholds
      have hsolo := h.of_waiting rest s'
      rw [h.takeTurns_of_waiting hpoll hcalm]
      generalize htime : nextTime horizon [(g.afterPoll n (.waiting rest, s')).slot start c] s'.now
        = time
      have hlt : s'.now < time := htime ▸ lt_nextTime ..
      have hprompt : ∀ t ∈ rest.nextTimer, time ≤ t.due := fun t ht =>
        htime ▸ nextTime_le_due hsolo.goes (t := ⟨n, rest⟩) (by simp [hsolo.tasks]) ht
          (Call.now_lt_of_nextTimer hpoll ht)
      have hearly : time < horizon := by
        obtain ⟨ending, s'', hends, hle⟩ :=
          (hnext (s'.advance time) (hW s' time hlt) hlt (by simp) hprompt).exists_end hW
        exact Nat.lt_of_le_of_lt hle (hQ ending s'' hends)
      obtain ⟨ending, s'', left, hends, hleft, hmost, heq⟩ := ih (s'.advance time)
        (hW s' time hlt) hlt (by simp) hprompt
        (g := { g.afterPoll n (.waiting rest, s') with session := s'.advance time })
        ⟨hsolo.goes, hsolo.ready, hsolo.tasks, hsolo.ended⟩ hI (g.run.job.plan.nodes.length)
        (Nat.succ_pos _) (Nat.le_of_eq (Nat.add_comm _ _)) rfl
      refine ⟨ending, s'', left, hends, by omega, hmost, ?_⟩
      rw [← hstill]
      refine (hsolo.goOn_eq hcalm htime hearly).trans ?_
      rw [Nat.add_comm 1]
      exact heq

/-! ## Handing on -/

/-- The only ready node is started. -/
theorem round_of_ready (hgoes : g.verdict = .goesOn) (hready : g.run.ready = [(n, v)])
    (htasks : g.run.tasks = []) (hended : g.run.ended = [])
    (hcalm : g.session.isCancelled g.run.scope = false) :
    g.round = g.startNext n v [] ∧ (g.startNext n v []).Solo n
      (n.call v ((g.session.derive g.run.scope).1.atNode n.id)) := by
  have hsolo : (g.startNext n v []).Solo n
      (n.call v ((g.session.derive g.run.scope).1.atNode n.id)) :=
    ⟨hgoes, rfl, by simp [startNext, htasks], hended⟩
  have hlaunch : g.launch = g.startNext n v [] := by
    rw [launch_of_hasRoom hready (by simp [hended, htasks, hasRoom_zero]),
      launch_of_ready_nil hsolo.ready]
  refine ⟨?_, hsolo⟩
  have hcalm' : (g.startNext n v []).session.isCancelled (g.startNext n v []).run.scope = false :=
    hcalm
  rw [round_eq, hlaunch, if_neg (by simp [hcalm']), observe_of_nil hsolo.ended,
    if_neg (by simp [hsolo.tasks]), settle, hsolo.goes]

/-- A run with nothing left to do has succeeded. -/
theorem round_of_idle (hready : g.run.ready = []) (htasks : g.run.tasks = [])
    (hended : g.run.ended = []) (hcalm : g.session.isCancelled g.run.scope = false) :
    g.round = { g with verdict := .succeeded, session := g.session.cancel g.run.scope } := by
  rw [round_eq, launch_of_ready_nil hready, if_neg (by simp [hcalm]), observe_of_nil hended,
    htasks]
  simp [settle, Run.halt, htasks]

/-- The stage in which the run has observed that the node came to a value. -/
def handedOn (g : Stage) (n : Node) (v : Value) (s : Session) : Stage :=
  { g with
    run := { g.run with
      ready := (g.run.job.plan.consumers n.id).map (·, v)
      tasks := []
      ended := []
      outputs := g.run.outputs.insert n.id v }
    session := s
    log := g.log ++ g.run.job.plan.completion n v }

/-- A value that the call has come to is observed, and then there is another round. -/
theorem Solo.ownTurn_afterPoll (h : g.Solo n call) {d : Datum n.output}
    (hcalm : s.isCancelled g.run.scope = false) :
    (g.afterPoll n (.ended (.value d), s)).ownTurn = (g.handedOn n d.value s).round := by
  let g' := g.afterPoll n (.ended (.value d), s)
  have hlaunch : g'.launch = g' := launch_of_ready_nil h.ready
  have hgoes : (g.handedOn n d.value s).verdict = .goesOn := h.goes
  have hround : g'.round = g.handedOn n d.value s := by
    have hended : g'.run.ended = [⟨n, .value d⟩] := rfl
    rw [round_eq, hlaunch, if_neg (by simp [g', afterPoll, hcalm]), observe_of_ok hended rfl,
      Run.complete_eq]
    simp [settle, g', afterPoll, handedOn, h.goes, h.ready]
  change g'.through (replicate 2 .round) = _
  rw [through_replicate_round (g := g') h.goes, hround, through_replicate_round hgoes]
  rfl

variable (start horizon : Nat) (c : Option Context)
  (hW : ∀ (s : Session) (time : Nat), s.now < time → W s (s.advance time))
  (h : g.Solo n call) {d : Datum n.output} {R : Session → Prop} {fuel : Nat}
  (hcall : call.Until W none I (fun ending s' => ending = .value d ∧ R s') g.session)
  (hI : ∀ s', I s' → s'.isCancelled g.run.scope = false)
  (hR : ∀ s', R s' → s'.isCancelled g.run.scope = false ∧ s'.now < horizon)
  (hpositive : 0 < fuel) (hfuel : fuel ≤ 1 + g.run.job.plan.nodes.length)

include hW h hcall hI hR hpositive hfuel

/-- A value is handed on to the only consumer, which is then the one node in flight. -/
theorem Solo.exists_handedOn (hconsumers : g.run.job.plan.consumers n.id = [m]) :
    ∃ s' left, R s' ∧ fuel ≤ left + 1 ∧ left ≤ g.run.job.plan.nodes.length ∧
      let g' := (g.handedOn n d.value s').startNext m d.value []
      g'.Solo m (m.call d.value ((s'.derive g.run.scope).1.atNode m.id)) ∧
      goOn start horizon g.session.now (takeTurns start fuel [g.slot start c] g.session) =
        goOn start horizon s'.now (takeTurns start left [g'.slot start c] g'.session) := by
  obtain ⟨_, s', left, ⟨rfl, hs'⟩, hleft, hmost, hobserved⟩ := h.exists_observed start horizon c hW
    hcall hI (fun _ s' hs' => (hR s' hs'.2).2) hpositive hfuel
  have hcalm := (hR s' hs').1
  obtain ⟨hround, hsolo⟩ := round_of_ready (g := g.handedOn n d.value s') (n := m) (v := d.value)
    h.goes (by simp [handedOn, hconsumers]) rfl rfl hcalm
  rw [h.ownTurn_afterPoll hcalm, hround] at hobserved
  exact ⟨s', left, hs', hleft, hmost, hsolo, hobserved⟩

/-- Without a consumer the run succeeds. -/
theorem Solo.exists_succeeded (hconsumers : g.run.job.plan.consumers n.id = []) :
    ∃ s', R s' ∧
      goOn start horizon g.session.now (takeTurns start fuel [g.slot start c] g.session) =
        ([⟨some (.ok (g.run.outputs.insert n.id d.value)), s'.now - start,
          (c.map (s'.cancel g.run.scope).isCancelled).getD false⟩], s'.cancel g.run.scope) := by
  obtain ⟨_, s', left, ⟨rfl, hs'⟩, hleft, hmost, hobserved⟩ := h.exists_observed start horizon c hW
    hcall hI (fun _ s' hs' => (hR s' hs'.2).2) hpositive hfuel
  have hcalm := (hR s' hs').1
  have hround := round_of_idle (g := g.handedOn n d.value s') (by simp [handedOn, hconsumers])
    rfl rfl hcalm
  refine ⟨s', hs', ?_⟩
  rw [hobserved, h.ownTurn_afterPoll hcalm, hround,
    takeTurns_of_over (show Verdict.succeeded ≠ .goesOn from nofun), slot_of_over rfl]
  dsimp only [handedOn]
  rw [Session.cancel_now]
  rfl

end Stage

/-- A run with one root starts this in its first instant. -/
theorem Job.settle_of_begin {j : Job} {s s' : Session} {r : Run} {n : Node} {v : Value}
    (hbegin : j.begin s = (.waiting r, s')) (hready : r.ready = [(n, v)]) (htasks : r.tasks = [])
    (hended : r.ended = []) (hcalm : s'.isCancelled r.scope = false) (start horizon : Nat)
    (c : Option Context) (hnow : s.now < horizon) :
    let g := (Stage.opening r s').startNext n v []
    g.Solo n (n.call v ((s'.derive r.scope).1.atNode n.id)) ∧
      settle start horizon (j.alone c) s = goOn start horizon s.now
        (takeTurns start (1 + r.job.plan.nodes.length) [g.slot start c] g.session) := by
  intro g
  obtain ⟨hround, hsolo⟩ := Stage.round_of_ready (g := .opening r s') rfl hready htasks hended hcalm
  have hturn : (Stage.opening r s').ownTurn = g := by
    rw [Stage.ownTurn, show (Stage.opening r s').run.ended = [] from hended,
      Stage.through_replicate_round rfl, hround]
    rfl
  refine ⟨hsolo, ?_⟩
  rw [settle_eq_goOn hnow, Stage.instant_requested hbegin, Stage.instant_eq, hturn,
    Stage.turnLimit_slot hsolo.goes]
  rfl

end Orchestration
