import Orchestration.Proofs.Run.Contexts
import Orchestration.Proofs.Run.TaskOrder
import Orchestration.Proofs.Run.Turns

/-! # Runs that are cancelled

When the context of a run is cancelled, the run's next own turn ends it, whatever its tasks have
come to by then. It starts nothing more, since a run whose tasks have had their turns has nothing
ready or no room. -/

namespace Orchestration

open List

theorem Session.isCancelled_of_ancestor {s : Session} {c d : Context}
    (h : s.isCancelled c = true) (hd : c.token.lineage ⊆ d.token.lineage) :
    s.isCancelled d = true := by
  simp only [isCancelled, Registry.isCancelled, any_eq_true] at h ⊢
  obtain ⟨id, hid, hcancelled⟩ := h
  exact ⟨id, hd hid, hcancelled⟩

namespace Run

/-! ## Turns take no time -/

theorem atOnce_ownTurn (r : Run) (s : Session) : s.AtOnce (r.ownTurn s).2 := by
  have hthrough : ∀ k (g : Stage), g.session.AtOnce (g.through (replicate k .round)).session := by
    intro k
    induction k with
    | zero => exact fun g => .refl _
    | succ k ih => exact fun g => (Stage.atOnce_after (by simp) g).trans (ih (g.after .round))
  have hprogress : ∀ g : Stage, g.progress.2 = g.session := by
    intro g
    unfold Stage.progress
    split <;> rfl
  let g : Stage := ⟨r, .goesOn, s, []⟩
  have hturn : r.ownTurn s = _ := Stage.ownTurn_eq_progress (g := g) rfl
  rw [hturn, hprogress]
  exact hthrough _ g

end Run

theorem Job.atOnce_begin (j : Job) (s : Session) : s.AtOnce (j.begin s).2 := by
  unfold begin
  split
  · exact .refl s
  · dsimp only
    split
    · exact (Session.AtOnce.derive s j.context).trans (.cancel _ _)
    · exact .derive s j.context

theorem Execution.atOnce_ownTurn (e : Execution) (s : Session) : s.AtOnce (e.ownTurn s).2 := by
  have hcontinuing : ∀ p : Progress Run RunResult × Session, (continuing p).2 = p.2 := by
    rintro ⟨_ | _, _⟩ <;> rfl
  cases e with
  | requested j =>
      have hbegin := j.atOnce_begin s
      rw [ownTurn]
      split
      · rename_i hj
        rwa [hj] at hbegin
      · rename_i r s' hj
        rw [hj] at hbegin
        rw [hcontinuing]
        exact hbegin.trans (r.atOnce_ownTurn s')
  | underway r =>
      rw [ownTurn, hcontinuing]
      exact r.atOnce_ownTurn s

namespace Run

/-! ## Between the turns of a run -/

/-- A run of a job between its own turns. It has something in flight, and nothing that it could
start. -/
structure Poised (j : Job) (r : Run) : Prop where
  job : r.job = j
  scope : j.context.token.lineage ⊆ r.scope.token.lineage
  full : r.ready = [] ∨ r.job.hasRoom (r.ended.length + r.tasks.length) = false
  busy : 0 < r.ended.length + r.tasks.length

theorem launch_of_full {r : Run} (h : r.ready = [] ∨
    r.job.hasRoom (r.ended.length + r.tasks.length) = false) (s : Session) :
    launch r.job r.scope r.ended.length r.ready r.tasks s = ((r.ready, r.tasks), s) := by
  cases hready : r.ready with
  | nil => rfl
  | cons e ready =>
      have hroom := h.resolve_left (by simp [hready])
      rw [launch, if_neg (by simp [hroom])]

/-- A run that has observed all endings and goes on has filled up what it has room for. -/
theorem poised_of_observe {j : Job} {ended : List EndedTask} {r r' : Run} {s s' : Session}
    (hjob : r.job = j) (hscope : j.context.token.lineage ⊆ r.scope.token.lineage)
    (hnone : r.ended = []) (h : observe ended r s = (.waiting r', s')) :
    r'.Poised j ∧ r'.ended = [] := by
  induction ended generalizing r s with
  | nil =>
      let g : Stage := ⟨r, .goesOn, s, []⟩
      have hr : { g.run with ended := [] } = r := by rw [← hnone]
      have hobserve := Stage.observe_eq g [] hnone
      rw [hr, h] at hobserve
      split at hobserve
      · cases hobserve
      · simp only at hobserve
        split at hobserve
        · cases hobserve
        · rename_i htasks
          obtain ⟨hr', -⟩ := Prod.mk.inj hobserve
          obtain rfl := Progress.waiting.inj hr'
          have hended : g.launch.run.ended = [] := by rw [Stage.launch_ended]; exact hnone
          refine ⟨⟨?_, ?_, g.launch_exhausts, ?_⟩, hended⟩
          · rwa [Stage.launch_job]
          · rwa [Stage.launch_scope]
          · have hlength := length_pos_of_ne_nil (mt List.isEmpty_iff.mpr htasks)
            omega
  | cons e rest ih =>
      let g : Stage := ⟨{ r with ended := e :: rest }, .goesOn, s, []⟩
      have hr : { g.run with ended := [] } = r := by rw [← hnone]
      have hobserve := Stage.observe_eq g (e :: rest) rfl
      rw [hr, h] at hobserve
      split at hobserve
      · cases hobserve
      · simp only at hobserve
        split at hobserve
        · refine ih ?_ ?_ rfl hobserve.symm
          · rw [complete_eq, Stage.launch_job]
            exact hjob
          · rw [complete_eq, Stage.launch_scope]
            exact hscope
        · cases hobserve

theorem Poised.ownTurn {j : Job} {r r' : Run} (h : r.Poised j) {s s' : Session}
    (hturn : r.ownTurn s = (.waiting r', s')) : r'.Poised j ∧ r'.ended = [] :=
  poised_of_observe (r := { r with ended := [] }) h.job h.scope rfl hturn

theorem Poised.taskTurn {j : Job} {r : Run} (h : r.Poised j) (timer : Option Timer) (s : Session) :
    (r.taskTurn timer s).1.Poised j := by
  have hsame : (r.taskTurn timer s).1.ended.length + (r.taskTurn timer s).1.tasks.length =
      r.ended.length + r.tasks.length := by
    rw [taskTurn_eq, length_append, Nat.add_assoc, Task.length_pollWhere]
  refine ⟨h.job, h.scope, ?_, ?_⟩
  · rw [hsame]
    exact h.full
  · rw [hsame]
    exact h.busy

/-- The own turn of a cancelled run ends it, whatever has ended and whatever is ready. -/
theorem Poised.ownTurn_of_cancelled {j : Job} {r : Run} (h : r.Poised j) {s : Session}
    (hcancelled : s.isCancelled j.context = true) :
    r.ownTurn s = (.ended (.error cancelled), r.halt s) := by
  have hscope := Session.isCancelled_of_ancestor hcancelled h.scope
  rw [Run.ownTurn, observe, launch_of_full h.full]
  simp only [hscope, if_true]
  rfl

end Run

/-- If anything is ready when nothing is in flight, something is started. -/
theorem Stage.launch_tasks_ne_nil {g : Stage} (hready : g.run.ready ≠ [])
    (htasks : g.run.tasks = [])
    (hended : g.run.ended = []) : g.launch.run.tasks ≠ [] := by
  obtain ⟨⟨n, v⟩, ready, hcons⟩ := exists_cons_of_ne_nil hready
  have hroom : g.run.job.hasRoom (g.run.ended.length + g.run.tasks.length) = true := by
    rw [hended, htasks]
    exact hasRoom_zero _
  rw [launch_of_hasRoom hcons hroom]
  have hprefix := (g.startNext n v ready).launch_tasks
  intro hnil
  rw [hnil] at hprefix
  simp [startNext] at hprefix

namespace Job

variable {j : Job}

theorem poised_of_ownTurn_begin {r r' : Run} {s s' s'' : Session}
    (hbegin : j.begin s = (.waiting r, s')) (hturn : r.ownTurn s' = (.waiting r', s'')) :
    r'.Poised j ∧ r'.ended = [] := by
  obtain ⟨ready, -, rfl, rfl⟩ := j.begin_eq_waiting hbegin
  exact Run.poised_of_observe rfl (by simp [Session.derive_lineage]) rfl hturn

/-- Whatever turns it has had, a run is poised. -/
theorem Becomes.poised {r : Run} {s : Session} (h : j.Becomes (.underway r) s) : r.Poised j := by
  generalize he : Execution.underway r = e at h
  induction h generalizing r with
  | requested s => cases he
  | @ownTurn e e' s s' h hturn ih =>
      subst he
      cases e with
      | requested job =>
          obtain hrequested | ⟨r₁, hunderway, -⟩ := h.underway
          · obtain rfl := Execution.requested.inj hrequested
            rw [Execution.ownTurn] at hturn
            split at hturn
            · cases hturn
            · rename_i r₁ s₁ hbegin
              obtain ⟨r', hr', heq⟩ := Execution.continuing_eq_waiting hturn
              obtain rfl := Execution.underway.inj heq
              exact (poised_of_ownTurn_begin hbegin hr').1
          · cases hunderway
      | underway r₁ =>
          obtain ⟨r', hr', heq⟩ := Execution.continuing_eq_waiting hturn
          obtain rfl := Execution.underway.inj heq
          exact ((ih rfl).ownTurn hr').1
  | @taskTurn e s timer h ih =>
      cases e with
      | requested job => cases he
      | underway r₁ =>
          obtain rfl := Execution.underway.inj he
          exact (ih rfl).taskTurn timer s
  | meanwhile s' h ih => exact ih he

theorem exists_begin_eq_waiting (hnodes : j.plan.nodes ≠ [])
    (hinputs : ∀ n ∈ j.plan.roots, ∃ v, j.inputs.get? n.id = some v) (s : Session) :
    ∃ ready, j.rootInputs = .ok ready ∧ j.begin s =
      (.waiting ⟨j, (s.derive j.context).1, ready, [], [], .empty⟩, (s.derive j.context).2) := by
  cases hbegin : j.begin s with
  | mk state s' =>
      cases state with
      | ended result =>
          obtain ⟨hnone, -⟩ | ⟨f, hmissing, -⟩ := begin_eq_ended hbegin
          · exact absurd hnone hnodes
          · obtain ⟨n, hn, hnone⟩ := exists_missing_of_rootInputs hmissing
            obtain ⟨v, hv⟩ := hinputs n hn
            simp [hnone] at hv
      | waiting r =>
          obtain ⟨ready, hready, rfl, rfl⟩ := j.begin_eq_waiting hbegin
          exact ⟨ready, hready, rfl⟩

/-- A run with nodes that is set up in a cancelled context ends in its first turn, without any
agent's doing. -/
theorem ownTurn_of_cancelled_before (hnodes : j.plan.nodes ≠ [])
    (hinputs : ∀ n ∈ j.plan.roots, ∃ v, j.inputs.get? n.id = some v) {s : Session}
    (hcancelled : s.isCancelled j.context = true) :
    ∃ s', Execution.ownTurn (.requested j) s = (.ended (.error Run.cancelled), s') ∧
      s.Uncalled s' := by
  obtain ⟨ready, -, hbegin⟩ := exists_begin_eq_waiting hnodes hinputs s
  let g : Stage := ⟨⟨j, (s.derive j.context).1, ready, [], [], .empty⟩, .goesOn,
    (s.derive j.context).2, []⟩
  have hscope : g.launch.session.isCancelled g.run.scope = true := by
    rw [Stage.launch_isCancelled]
    exact Session.isCancelled_of_ancestor (c := j.context) hcancelled
      (by simp [g, Session.derive_lineage])
  have hobserve := Stage.observe_eq g [] rfl
  rw [if_pos hscope] at hobserve
  refine ⟨g.launch.run.halt g.launch.session, ?_, ?_⟩
  · rw [Execution.ownTurn, hbegin]
    exact congrArg Execution.continuing hobserve
  · exact ((Session.Uncalled.derive s j.context).trans g.uncalled_launch).trans
      (g.launch.run.uncalled_halt _)

/-- A run with nodes that has just been set up does not end unless it is cancelled. -/
theorem ownTurn_of_requested (hplan : j.plan.Built) (hnodes : j.plan.nodes ≠ [])
    (hinputs : ∀ n ∈ j.plan.roots, ∃ v, j.inputs.get? n.id = some v) (s : Session) :
    (Execution.ownTurn (.requested j) s).1 = .ended (.error Run.cancelled) ∨
      ∃ r : Run, (Execution.ownTurn (.requested j) s).1 = .waiting (.underway r) ∧ r.Poised j := by
  obtain ⟨ready, hready, hbegin⟩ := exists_begin_eq_waiting hnodes hinputs s
  have hroots : ready ≠ [] := by
    rintro rfl
    exact hplan.roots_ne_nil hnodes (j.rootInputs_eq_ok hready).1.symm
  let g : Stage := ⟨⟨j, (s.derive j.context).1, ready, [], [], .empty⟩, .goesOn,
    (s.derive j.context).2, []⟩
  have htasks : g.launch.run.tasks.isEmpty = false := by
    simpa using Stage.launch_tasks_ne_nil (g := g) hroots rfl rfl
  have hobserve := Stage.observe_eq g [] rfl
  have hturn : Execution.ownTurn (.requested j) s = Execution.continuing
      (Run.observe [] { g.run with ended := [] } g.session) := by
    rw [Execution.ownTurn, hbegin]
    rfl
  rw [hturn]
  split at hobserve
  · rw [hobserve]
    exact .inl rfl
  · simp only [htasks, Bool.false_eq_true, if_false] at hobserve
    have hpoised := Run.poised_of_observe (j := j) (r := { g.run with ended := [] }) rfl
      (by simp [g, Session.derive_lineage]) rfl hobserve
    rw [hobserve]
    exact .inr ⟨g.launch.run, rfl, hpoised.1⟩

/-- An empty plan succeeds, in whatever context. -/
theorem ownTurn_of_empty (hnodes : j.plan.nodes = []) (s : Session) :
    Execution.ownTurn (.requested j) s = (.ended (.ok .empty), s) := by
  simp [Execution.ownTurn, begin, hnodes]

end Job

end Orchestration
