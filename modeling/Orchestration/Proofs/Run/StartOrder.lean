import Orchestration.Proofs.Plan.Levels
import Orchestration.Proofs.Run.Capacity

/-! # The order of starts

Nodes become ready in the order in which their producers complete, as they do when a plan is put in
order. So a run whose tasks end in the order of their starts starts nodes in the order of the plan.
This is so if there is room for one task only, and it is so if no agent ever suspends, since a turn
of the tasks then ends all of them. -/

namespace Orchestration

open List

namespace Stage

variable {g : Stage}

def startedIds (g : Stage) : List String := (startedIn g.log).map (·.1)

def completedIds (g : Stage) : List String := (completedIn g.log).map (·.1)

/-! ## Tasks in line -/

/-- Tasks have ended, and their endings have been observed, in the order of their starts. -/
def InLine (g : Stage) : Prop :=
  g.startedIds = g.completedIds ++ g.verdict.failedIds ++ g.endedIds ++ g.taskIds

theorem inLine_launch (h : g.InLine) : g.launch.InLine := by
  refine launch_induction h fun g n v ready h _ _ => ?_
  simp only [InLine, startedIds, completedIds, endedIds, taskIds] at h ⊢
  simp only [startNext, startedIn_append, completedIn_append, map_append, h]
  simp [startedIn, completedIn]

theorem inLine_observe (h : g.InLine) (hgoes : g.verdict = .goesOn) : g.observe.settle.InLine := by
  simp only [InLine, startedIds, completedIds, endedIds, taskIds, settle_run, settle_verdict,
    settle_log] at h ⊢
  rw [hgoes] at h
  cases hended : g.run.ended with
  | nil =>
      rw [observe_of_nil hended]
      split
      · simpa [Verdict.failedIds] using h
      · rwa [hgoes]
  | cons e rest =>
      rw [hended] at h
      cases hresult : e.result with
      | ok output =>
          rw [observe_of_ok hended hresult]
          simpa [Run.complete_eq, hgoes, Verdict.failedIds, startedIn_append,
            completedIn_append] using h
      | error f =>
          rw [observe_of_error hended hresult]
          simpa [startedIn_append, completedIn_append, startedIn, completedIn,
            Verdict.failedIds] using h

theorem inLine_round (h : g.InLine) (hgoes : g.verdict = .goesOn) : g.round.InLine := by
  have hlaunch := inLine_launch h
  rw [round_eq]
  split
  · simpa [InLine, startedIds, completedIds, endedIds, taskIds, settle, hgoes,
      Verdict.failedIds] using hlaunch
  · exact inLine_observe hlaunch (by simpa using hgoes)

theorem inLine_poll (h : g.InLine) {i : Nat} (hfirst : ∀ t, g.run.tasks[i]? = some t → i = 0) :
    (g.poll i).InLine := by
  cases ht : g.run.tasks[i]? with
  | none => rwa [poll_of_none ht]
  | some t =>
      obtain rfl := hfirst t ht
      cases hpoll : t.call.poll g.session with
      | mk state s =>
          cases state with
          | waiting call =>
              rw [poll_of_waiting ht hpoll]
              have hids := map_set_of_eq (fun t : Task => t.node.id) ⟨t.node, call⟩ ht rfl
              rw [InLine, taskIds, hids]
              exact h
          | ended ending =>
              rw [poll_of_ended ht hpoll]
              obtain ⟨rest, htasks⟩ : ∃ rest, g.run.tasks = t :: rest := by
                cases hrest : g.run.tasks with
                | nil => simp [hrest] at ht
                | cons u rest => exact ⟨rest, by simpa [hrest] using ht⟩
              simp only [InLine, startedIds, completedIds, endedIds, taskIds, htasks] at h ⊢
              simpa using h

theorem inLine_after (h : g.InLine) {m : Move}
    (hfirst : ∀ i t, m = .poll i → g.run.tasks[i]? = some t → i = 0) : (g.after m).InLine := by
  unfold after
  split
  · exact inLine_round h ‹_›
  · exact inLine_poll h fun t ht => hfirst _ t rfl ht
  · exact h
  · exact h

@[simp]
theorem launch_completedIds (g : Stage) : g.launch.completedIds = g.completedIds :=
  launch_induction (P := fun g' => g'.completedIds = g.completedIds) rfl fun _ _ _ _ h _ _ => by
    simpa [startNext, completedIds, completedIn_append, completedIn] using h

theorem observe_completedIds (g : Stage) :
    g.observe.completedIds <+: g.completedIds ++ g.endedIds := by
  cases hended : g.run.ended with
  | nil =>
      rw [observe_of_nil hended]
      split <;> exact prefix_append _ _
  | cons e rest =>
      cases hresult : e.result with
      | ok output =>
          rw [observe_of_ok hended hresult]
          simp [completedIds, endedIds, hended, completedIn_append, prefix_append_right_inj]
      | error f =>
          rw [observe_of_error hended hresult]
          simp [completedIds, completedIn]

theorem poll_log (g : Stage) (i : Nat) : (g.poll i).log = g.log := by
  unfold poll
  split
  · rfl
  · split <;> rfl

/-- No node completes before one whose task has ended earlier. -/
theorem completedIds_after (g : Stage) (m : Move) :
    (g.after m).completedIds <+: g.completedIds ++ g.endedIds := by
  unfold after
  split
  · have hlaunch := g.launch.observe_completedIds
    rw [launch_completedIds, endedIds, launch_ended] at hlaunch
    rw [round_eq]
    split
    · rw [completedIds, settle_log]
      exact g.launch_completedIds ▸ prefix_append _ _
    · rwa [completedIds, settle_log]
  · rw [completedIds, poll_log]
    exact prefix_append _ _
  · exact prefix_append _ _
  · exact prefix_append _ _

end Stage

namespace Job

variable {j : Job} {g : Stage}

/-! ## The queue -/

/-- The roots become ready first, and then the consumers of each node that completes, in turn. -/
theorem Reaches.readiedIds_eq (h : j.Reaches g) (hplan : j.plan.Built) :
    (readiedIn g.log).map (·.1) =
      j.plan.roots.map (·.id) ++ g.completedIds.flatMap j.plan.dependents := by
  induction h with
  | opening hbegin =>
      obtain ⟨ready, hready, rfl, rfl⟩ := j.begin_eq_waiting hbegin
      rw [← (j.rootInputs_eq_ok hready).1]
      simp [Stage.opening, Stage.completedIds]
  | @change g g' h hchange ih =>
      have hjob := (h.accounts hplan).job
      simp only [Stage.completedIds] at ih ⊢
      cases hchange with
      | meanwhile s => exact ih
      | start => simpa [Stage.startNext, readiedIn_append, completedIn_append, readiedIn,
          completedIn] using ih
      | wait => exact ih
      | finish => exact ih
      | complete =>
          simp only [readiedIn_append, readiedIn_completion, completedIn_append,
            completedIn_completion, map_append, flatMap_append, ih, hjob]
          simp [← hplan.map_id_consumers]
      | fail => simpa [readiedIn_append, completedIn_append, readiedIn, completedIn] using ih
      | succeed => exact ih
      | cancel => exact ih

/-- What has become ready stands in the order of the plan if what has completed does. -/
theorem Reaches.startedIds_prefix_order (h : j.Reaches g) (hplan : j.plan.Built)
    (hcompleted : g.completedIds <+: j.plan.order) : g.startedIds <+: j.plan.order := by
  have hqueue : g.startedIds <+: (readiedIn g.log).map (·.1) := by
    rw [(h.accounts hplan).queue, map_append]
    exact prefix_append _ _
  refine hqueue.trans ?_
  rw [h.readiedIds_eq hplan]
  obtain ⟨later, hlater⟩ := hcompleted
  refine ⟨later.flatMap j.plan.dependents, ?_⟩
  conv_rhs => rw [hplan.level_order.1, ← hlater, flatMap_append, ← append_assoc]

/-! ## Polling the first task only -/

/-- The stages that moves lead to if no task is polled but the first of those at work. -/
inductive Lined (j : Job) : Stage → Prop where
  | opening {s s' : Session} {r : Run} (hbegin : j.begin s = (.waiting r, s')) :
      Lined j (.opening r s')
  | after {g : Stage} (h : Lined j g) (m : Move)
      (hfirst : ∀ i t, m = .poll i → g.run.tasks[i]? = some t → i = 0) : Lined j (g.after m)

namespace Lined

theorem unpolled (h : j.Lined g) {m : Move} (hm : ∀ i, m ≠ .poll i) : j.Lined (g.after m) :=
  h.after m fun i _ hi _ => absurd hi (hm i)

theorem reaches (h : j.Lined g) : j.Reaches g := by
  induction h with
  | opening hbegin => exact .opening hbegin
  | after _ m _ ih => exact ih.changes (Stage.changes_after _ m)

theorem inLine (h : j.Lined g) : g.InLine := by
  induction h with
  | opening hbegin =>
      obtain ⟨ready, -, rfl, rfl⟩ := j.begin_eq_waiting hbegin
      simp [Stage.opening, Stage.InLine, Stage.startedIds, Stage.completedIds, Stage.endedIds,
        Stage.taskIds, Verdict.failedIds]
  | after _ m hfirst ih => exact Stage.inLine_after ih hfirst

/-- The invariant that carries the lock-step: what completes next is what was started next, and what
was started stands in the order of the plan as long as what has completed does. -/
theorem completedIds_prefix_order (h : j.Lined g) (hplan : j.plan.Built) :
    g.completedIds <+: j.plan.order := by
  induction h with
  | opening hbegin =>
      obtain ⟨ready, -, rfl, rfl⟩ := j.begin_eq_waiting hbegin
      simp [Stage.opening, Stage.completedIds]
  | @after g h m hfirst ih =>
      by_cases hgoes : g.verdict = .goesOn
      · have hstarted := h.reaches.startedIds_prefix_order hplan ih
        refine (g.completedIds_after m).trans (.trans ?_ hstarted)
        rw [h.inLine, hgoes]
        simp [Verdict.failedIds]
      · rwa [Stage.after_of_over hgoes]

end Lined

/-- Nodes were started in the order of the plan, and all of them if the run has succeeded. -/
def StartsInOrder (j : Job) (g : Stage) : Prop :=
  g.startedIds <+: j.plan.order ∧ (g.verdict = .succeeded → g.startedIds = j.plan.order)

theorem Lined.startsInOrder (h : j.Lined g) (hplan : j.plan.Built) : j.StartsInOrder g := by
  have hstarted := h.reaches.startedIds_prefix_order hplan (h.completedIds_prefix_order hplan)
  refine ⟨hstarted, fun hverdict => hstarted.eq_of_length ?_⟩
  have haccounts := h.reaches.accounts hplan
  have hall := haccounts.perm_keys_of_succeeded hplan h.reaches.exists_input hverdict
  obtain ⟨-, htasks, hended⟩ := haccounts.idle hverdict
  rw [Entries.keys, haccounts.outputs] at hall
  rw [h.inLine, hverdict, Stage.endedIds, Stage.taskIds, htasks, hended,
    hplan.order_spec.1.length_eq]
  simpa [Stage.completedIds, Verdict.failedIds] using hall.length_eq

/-! ## Room for one task -/

/-- Where there is room for one task only, it is the first. -/
theorem Lined.of_moved (hplan : j.plan.Built) (hlimit : ∃ m ≤ 1, j.maxConcurrency = some m)
    (h : j.Moved g) : j.Lined g := by
  obtain ⟨s, r, s', moves, hbegin, rfl⟩ := h
  induction moves using reverseRecOn with
  | nil => exact .opening hbegin
  | append_singleton moves m ih =>
      rw [Stage.through_append]
      refine ih.after m fun i t _ ht => ?_
      obtain ⟨m, hm, hsome⟩ := hlimit
      have hallows := ih.reaches.allows hplan m hsome
      have hlt := (List.getElem?_eq_some_iff.mp ht).1
      unfold Run.inFlight at hallows
      omega

end Job

/-! ## Agents that never suspend -/

/-- No agent of the plan ever suspends. -/
def Plan.NeverSuspends (p : Plan) : Prop :=
  ∀ n ∈ p.nodes, ∀ d c, (n.agent.start d c).Immediate

theorem Node.immediate_call {n : Node} (h : ∀ d c, (n.agent.start d c).Immediate) (v : Value)
    (c : Context) : (n.call v c).Immediate := by
  unfold call
  cases v.as? n.input with
  | none => exact Call.immediate_finish _
  | some d =>
      dsimp only
      unfold withCopy
      cases d.copy 0 with
      | error f => exact Call.immediate_finish _
      | ok copy =>
          refine ((h copy c).andThen fun ending => ?_).andThen fun ending => ?_
          · cases ending <;> exact Call.immediate_finish _
          · cases ending <;> exact Call.immediate_finish _

theorem Task.pollWhere_of_none_wanted {wanted : Task → Bool} {tasks : List Task}
    (h : ∀ t ∈ tasks, wanted t = false) (s : Session) :
    pollWhere wanted tasks s = (([], tasks), s) := by
  induction tasks with
  | nil => rfl
  | cons t rest ih =>
      rw [pollWhere_of_unwanted (h t mem_cons_self), ih fun u hu => h u (mem_cons_of_mem _ hu)]

namespace Job

variable {j : Job} {g : Stage}

/-- A stage in line whose tasks will all end when they are polled. -/
structure Prompt (j : Job) (g : Stage) : Prop where
  lined : j.Lined g
  tasks : ∀ t ∈ g.run.tasks, t.call.Immediate

namespace Prompt

theorem rounds (h : j.Prompt g) (hplan : j.plan.Built) (hagents : j.plan.NeverSuspends) (k : Nat) :
    j.Prompt (g.through (replicate k .round)) := by
  induction k with
  | zero => exact h
  | succ k ih =>
      rw [replicate_succ', Stage.through_append]
      have hlined := ih.lined.unpolled (m := .round) (by simp)
      refine ⟨hlined, fun t ht => ?_⟩
      obtain hold | ⟨i, u, call, -, hround, -⟩ | ⟨-, v, c, -, -, hnew⟩ := Stage.task_after ht
      · exact ih.tasks t hold
      · cases hround
      · have hnode := ((hlined.reaches.accounts hplan).tasks t ht).1
        rw [hnew]
        exact Node.immediate_call (hagents t.node hnode) v c

theorem poll_first (h : j.Prompt g) (hgoes : g.verdict = .goesOn) {t : Task} {rest : List Task}
    {ending : Ending (Datum t.node.output)} {s : Session} (htasks : g.run.tasks = t :: rest)
    (hpoll : t.call.poll g.session = (.ended ending, s)) :
    j.Prompt (g.withPolled [⟨t.node, ending⟩] rest s) := by
  have hfirst : g.run.tasks[0]? = some t := by simp [htasks]
  have hafter : g.after (.poll 0) = g.withPolled [⟨t.node, ending⟩] rest s := by
    simp only [Stage.after, hgoes, Stage.poll_of_ended hfirst hpoll, Stage.withPolled, htasks,
      eraseIdx_zero, tail_cons]
  refine ⟨?_, fun u hu => h.tasks u (by simpa [htasks] using .inr hu)⟩
  rw [← hafter]
  exact h.lined.after _ fun i u hi _ => (Move.poll.inj hi).symm

/-- In a turn of all tasks, all end in the order of their starts. -/
theorem poll_all (h : j.Prompt g) (hgoes : g.verdict = .goesOn) {tasks : List Task}
    (htasks : g.run.tasks = tasks) :
    j.Prompt (g.withPolled (Task.pollWhere (Task.wakesWith none) tasks g.session).1.1
      (Task.pollWhere (Task.wakesWith none) tasks g.session).1.2
      (Task.pollWhere (Task.wakesWith none) tasks g.session).2) := by
  induction tasks generalizing g with
  | nil => simpa [Task.pollWhere, Stage.withPolled, ← htasks] using h
  | cons t rest ih =>
      -- the first task ends, so the next one is first when its turn comes
      obtain ⟨ending, s, hpoll⟩ := (h.tasks t (by simp [htasks])).ends g.session
      have hrest := ih (h.poll_first hgoes htasks hpoll) hgoes rfl
      rw [Task.pollWhere_of_wanted rfl, hpoll]
      simpa [Stage.withPolled] using hrest

theorem taskTurn (h : j.Prompt g) (hgoes : g.verdict = .goesOn) (timer : Option Timer) :
    j.Prompt { g with run := (g.run.taskTurn timer g.session).1
                      session := (g.run.taskTurn timer g.session).2 } := by
  cases timer with
  | none => exact h.poll_all hgoes rfl
  | some u =>
      have hnone : ∀ t ∈ g.run.tasks, t.wakesWith (some u) = false := by
        intro t ht
        simp [Task.wakesWith, (h.tasks t ht).untimed]
      rw [Run.taskTurn_eq, Task.pollWhere_of_none_wanted hnone]
      simpa using h

theorem of_turned (hplan : j.plan.Built) (hagents : j.plan.NeverSuspends) (h : j.Turned g) :
    j.Prompt g := by
  induction h with
  | opening hbegin =>
      obtain ⟨ready, -, rfl, -⟩ := j.begin_eq_waiting hbegin
      exact ⟨.opening hbegin, by simp [Stage.opening]⟩
  | ownTurn _ _ ih => exact ih.rounds hplan hagents _
  | taskTurn timer _ hgoes ih => exact ih.taskTurn hgoes timer
  | @meanwhile g s _ hgoes ih =>
      have hafter : g.after (.meanwhile fun _ => s) = { g with session := s } := by
        simp only [Stage.after, hgoes]
      refine ⟨?_, ih.tasks⟩
      rw [← hafter]
      exact ih.lined.unpolled (by simp)

end Prompt

/-- If there is room for one task only, a run starts nodes in the order of the plan, whatever agents
do and whenever tasks are polled, and has started all of them if it succeeds. So does a run with any
limit that takes turns if no agent ever suspends. A run that succeeds without a stage had nothing to
start. -/
theorem starts_in_plan_order (hplan : j.plan.Built) :
    ((∃ m ≤ 1, j.maxConcurrency = some m) → ∀ g, j.Moved g → j.StartsInOrder g) ∧
    (j.plan.NeverSuspends → ∀ g, j.Turned g → j.StartsInOrder g) ∧
    ∀ s outputs s', j.begin s = (.ended (.ok outputs), s') → j.plan.order = [] := by
  refine ⟨fun hlimit g hg => ?room, fun hagents g hg => ?turns, fun s outputs s' hbegin => ?none⟩
  case room => exact (Lined.of_moved hplan hlimit hg).startsInOrder hplan
  case turns => exact (Prompt.of_turned hplan hagents hg).lined.startsInOrder hplan
  case none =>
    obtain ⟨hnone, -⟩ | ⟨f, -, hfailed⟩ := begin_eq_ended hbegin
    · have hids : j.plan.ids = [] := by simp [Plan.ids, hnone]
      exact (hids ▸ hplan.order_spec.1).eq_nil
    · cases hfailed

theorem neverSuspends_relays : Plan.relays.NeverSuspends := by
  intro n hn d c
  obtain rfl | rfl : n = .relay 0 "a" ∨ n = .relay 1 "b" := by simpa [Plan.relays] using hn
  all_goals exact Call.immediate_act fun _ => Call.immediate_finish _

/-- The small plan succeeds with both nodes started in turn, and it may take turns as well. -/
theorem starts_in_plan_order_relays :
    let j := relays (.text "x")
    let g := Stage.opening (.relays (.text "x")) .second
    let last := g.through [.round, .poll 0, .round, .round, .poll 0, .round, .round]
    Plan.relays.Built ∧ (∃ m ≤ 1, j.maxConcurrency = some m) ∧ Plan.relays.NeverSuspends ∧
      last.startedIds = ["a", "b"] ∧ j.StartsInOrder (g.through [.round]) := by
  have hspec := starts_in_plan_order (j := relays (.text "x")) Plan.built_relays
  refine ⟨Plan.built_relays, ⟨1, le_rfl, rfl⟩, neverSuspends_relays, ?_, ?_⟩
  · exact (hspec.1 ⟨1, le_rfl, rfl⟩ _ ⟨_, _, _, _, begin_relays _, rfl⟩).2 rfl
  · exact hspec.2.1 neverSuspends_relays _ (.ownTurn (.opening (begin_relays _)) rfl)

end Job

end Orchestration
