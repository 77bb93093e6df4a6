import Orchestration.Proofs.Run.Capacity
import Orchestration.Proofs.Run.Scope

/-! # Runs that nobody cancels

If the context of a run is not cancelled, and its agents cancel none of the contexts that it is
derived from, then nothing that the run or its tasks do cancels it. So it is over only when all its
nodes have completed or one has failed. -/

namespace Orchestration

open List

/-- The context that the run is going to have is not cancelled, and the agents do not cancel what it
is derived from. -/
structure Job.Unhindered (j : Job) (s : Session) : Prop where
  uncancelled : s.isCancelled (s.derive j.context).1 = false
  issued : s.Issued j.context
  agents : ∀ n ∈ j.plan.nodes,
    n.agent.Confined fun id => id ∉ (s.derive j.context).1.token.lineage

namespace Stage

/-- The run's context is not cancelled, and neither its agents nor its tasks cancel what that is
derived from. -/
structure Unhindered (j : Job) (g : Stage) : Prop where
  uncancelled : g.session.isCancelled g.run.scope = false
  issued : g.session.Issued g.run.scope
  agents : ∀ n ∈ j.plan.nodes, n.agent.Confined fun id => id ∉ g.run.scope.token.lineage
  tasks : ∀ t ∈ g.run.tasks, t.call.Confined fun id => id ∉ g.run.scope.token.lineage

namespace Unhindered

variable {j : Job} {g : Stage}

theorem opening {s s' : Session} {r : Run} (h : j.Unhindered s)
    (hbegin : j.begin s = (.waiting r, s')) : (Stage.opening r s').Unhindered j := by
  obtain ⟨ready, -, rfl, rfl⟩ := j.begin_eq_waiting hbegin
  exact ⟨h.uncancelled, h.issued.derive, h.agents, by simp [Stage.opening]⟩

theorem startNext (h : g.Unhindered j) {n : Node} (hn : n ∈ j.plan.nodes) (v : Value)
    (ready : List (Node × Value)) : (g.startNext n v ready).Unhindered j := by
  have hlater := (Session.AtOnce.derive g.session g.run.scope).toLater
  have hfresh := h.issued.not_under_derive g.run.scope
  refine ⟨h.uncancelled, h.issued.later hlater, h.agents, fun t ht => ?_⟩
  rcases mem_append.mp ht with ht | ht
  · exact h.tasks t ht
  · obtain rfl := mem_singleton.mp ht
    exact Node.confined_call (h.agents n hn) (fun _ hid => hid)
      (c := (g.session.derive g.run.scope).1.atNode n.id) hfresh v

theorem launch (h : g.Unhindered j) (haccounts : g.Accounts j) (hplan : j.plan.Built)
    (hgoes : g.verdict = .goesOn) : g.launch.Unhindered j := by
  refine (launch_induction (P := fun g' => g'.verdict = .goesOn ∧ g'.Accounts j ∧
    g'.Unhindered j) ⟨hgoes, haccounts, h⟩ ?_).2.2
  intro g' n v ready ⟨hgoes', haccounts', h'⟩ hready hroom
  have hn : n ∈ j.plan.nodes := haccounts'.known (n, v) (by simp [hready])
  exact ⟨hgoes', haccounts'.change hplan (.start hgoes' hready hroom), h'.startNext hn v ready⟩

/-- A round does not cancel the run. -/
theorem round (h : g.Unhindered j) (haccounts : g.Accounts j) (hplan : j.plan.Built)
    (hgoes : g.verdict = .goesOn) : g.round.verdict ≠ .cancelled ∧
      (g.round.verdict = .goesOn → g.round.Unhindered j) := by
  have hlaunch := h.launch haccounts hplan hgoes
  rw [round_eq, hlaunch.uncancelled, if_neg Bool.false_ne_true, settle_verdict]
  refine ⟨observe_verdict_ne_cancelled (by rw [launch_verdict, hgoes]), fun hverdict => ?_⟩
  rw [settle_of_goesOn hverdict]
  constructor
  case uncancelled =>
    rw [observe_session, observe_scope]
    exact hlaunch.uncancelled
  case issued =>
    rw [observe_session, observe_scope]
    exact hlaunch.issued
  case agents =>
    rw [observe_scope]
    exact hlaunch.agents
  case tasks =>
    rw [observe_tasks, observe_scope]
    exact hlaunch.tasks

theorem poll (h : g.Unhindered j) (i : Nat) : (g.poll i).Unhindered j := by
  cases ht : g.run.tasks[i]? with
  | none => rwa [poll_of_none ht]
  | some t =>
      have hlater := (t.call.atOnce_poll g.session).toLater
      -- what the poll hands out is new, so the run's context is not made of it
      obtain ⟨hcancels, hrest⟩ := (h.tasks t (mem_of_getElem? ht)).poll (s := g.session)
        fun id hnew _ hid => Nat.not_lt_of_le hnew (h.issued id hid)
      have hscope := (hcancels.isCancelled_eq hlater fun id hid hother => hother hid).trans
        h.uncancelled
      have hissued := h.issued.later hlater
      cases hpoll : t.call.poll g.session with
      | mk state s =>
          rw [hpoll] at hscope hissued hrest
          cases state with
          | ended ending =>
              rw [poll_of_ended ht hpoll]
              exact ⟨hscope, hissued, h.agents, fun u hu => h.tasks u (mem_of_mem_eraseIdx hu)⟩
          | waiting call =>
              rw [poll_of_waiting ht hpoll]
              refine ⟨hscope, hissued, h.agents, fun u hu => ?_⟩
              rcases mem_or_eq_of_mem_set hu with hu | rfl
              · exact h.tasks u hu
              · exact hrest call rfl

theorem advance (h : g.Unhindered j) (time : Nat) :
    { g with session := g.session.advance time }.Unhindered j :=
  ⟨h.uncancelled, h.issued, h.agents, h.tasks⟩

/-- So neither do any number of rounds. -/
theorem rounds (h : g.Unhindered j) (hreached : j.Reaches g) (hplan : j.plan.Built)
    (hgoes : g.verdict = .goesOn) (k : Nat) :
    (g.through (replicate k .round)).verdict ≠ .cancelled ∧
      ((g.through (replicate k .round)).verdict = .goesOn →
        (g.through (replicate k .round)).Unhindered j) := by
  induction k generalizing g with
  | zero => exact ⟨by simp [Stage.through, hgoes], fun _ => h⟩
  | succ k ih =>
      obtain ⟨huncancelled, hstill⟩ := h.round (hreached.accounts hplan) hplan hgoes
      rw [through_replicate_round hgoes]
      by_cases hgoes' : g.round.verdict = .goesOn
      · have hchanges := changes_of_atOnce (changesAtOnce_round hgoes)
        exact ih (hstill hgoes') (hreached.changes hchanges) hgoes'
      · rw [through_of_over hgoes']
        exact ⟨huncancelled, fun hverdict => absurd hverdict hgoes'⟩

theorem polls (h : g.Unhindered j) (hgoes : g.verdict = .goesOn) (positions : List Nat) :
    (g.through (positions.map .poll)).Unhindered j := by
  induction positions generalizing g with
  | nil => exact h
  | cons i positions ih =>
      have hafter : g.after (.poll i) = g.poll i := by simp only [Stage.after, hgoes]
      rw [map_cons, Stage.through, foldl_cons, hafter]
      exact ih (h.poll i) ((g.poll_verdict i).trans hgoes)

end Unhindered

end Stage

/-! ## Turns -/

/-- The execution of a job that nothing which the run or its tasks do cancels. -/
inductive Execution.Unhindered (j : Job) : Execution → Session → Prop where
  | requested {s : Session} (h : j.Unhindered s) : Unhindered j (.requested j) s
  | underway {g : Stage} (hturned : j.Turned g) (hgoes : g.verdict = .goesOn)
      (h : g.Unhindered j) : Unhindered j (.underway g.run) g.session

namespace Execution.Unhindered

variable {j : Job} {e : Execution} {s : Session}

/-- What an own turn leads to is a stage that is not cancelled, and unhindered if it goes on. -/
theorem exists_continuing {g : Stage} (hturned : j.Turned g) (hgoes : g.verdict = .goesOn)
    (h : g.Unhindered j) (hplan : j.plan.Built) : ∃ g', j.Turned g' ∧ g'.verdict ≠ .cancelled ∧
      (g'.verdict = .goesOn → g'.Unhindered j) ∧
      Execution.ownTurn (.underway g.run) g.session = continuing g'.progress := by
  have hrounds := h.rounds (.of_moved hturned.moved) hplan hgoes (g.run.ended.length + 1)
  refine ⟨_, hturned.ownTurn hgoes, hrounds.1, hrounds.2, ?_⟩
  rw [ownTurn, Stage.ownTurn_eq_progress hgoes]

theorem ownTurn (h : e.Unhindered j s) (hplan : j.plan.Built) (hnodes : j.plan.nodes ≠ [])
    (hinputs : ∀ n ∈ j.plan.roots, ∃ v, j.inputs.get? n.id = some v) :
    ∃ g, j.Turned g ∧ g.verdict ≠ .cancelled ∧ (g.verdict = .goesOn → g.Unhindered j) ∧
      e.ownTurn s = continuing g.progress := by
  cases h with
  | requested h =>
      obtain ⟨ready, -, hbegin⟩ := Job.exists_begin_eq_waiting hnodes hinputs s
      have hturn := exists_continuing (.opening hbegin) rfl (.opening h hbegin) hplan
      rw [Execution.ownTurn, hbegin]
      exact hturn
  | underway hturned hgoes h => exact exists_continuing hturned hgoes h hplan

theorem taskTurn (h : e.Unhindered j s) (timer : Option Timer) :
    (e.taskTurn timer s).1.Unhindered j (e.taskTurn timer s).2 := by
  cases h with
  | requested h => exact .requested h
  | @underway g hturned hgoes h =>
      obtain ⟨positions, hpositions⟩ := Stage.exists_taskTurn_eq hgoes timer
      have hpolls := h.polls hgoes positions
      rw [hpositions] at hpolls
      exact .underway (hturned.taskTurn timer hgoes) hgoes hpolls

theorem advance (h : e.Unhindered j s) (time : Nat) : e.Unhindered j (s.advance time) := by
  cases h with
  | requested h => exact .requested ⟨h.uncancelled, h.issued, h.agents⟩
  | @underway g hturned hgoes h =>
      exact .underway (hturned.meanwhile (g.session.advance time) hgoes) hgoes (h.advance time)

end Execution.Unhindered

end Orchestration
