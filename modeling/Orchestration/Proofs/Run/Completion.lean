import Orchestration.Proofs.Run.Reference

/-! # Runs come to what the reference says

A run that nobody cancels, of a plan whose agents end after finite waits, ends as long as its rounds
and its tasks have their turns again and again. Its result is that of the reference evaluation,
whatever the order of the turns, the limit on nodes in flight, and the inputs of other nodes. -/

namespace Orchestration

open List Relation

namespace Stage

variable {g : Stage} {schedule : Nat → Move}

/-- As long as the run goes on, its context is not cancelled. -/
def Uncancelled (g : Stage) (schedule : Nat → Move) : Prop :=
  ∀ n, (g.along schedule n).verdict = .goesOn →
    (g.along schedule n).session.isCancelled (g.along schedule n).run.scope = false

/-- As long as the run goes on, there is another round, and a task that stays in flight is polled
again after any time. -/
structure Fair (g : Stage) (schedule : Nat → Move) : Prop where
  rounds : ∀ n, ∃ m, n ≤ m ∧ ((g.along schedule m).verdict ≠ .goesOn ∨ schedule m = .round)
  polls : ∀ n id time, ∃ m, n ≤ m ∧ ((g.along schedule m).verdict ≠ .goesOn ∨
    id ∉ (g.along schedule m).taskIds ∨
    ∃ i t, schedule m = .poll i ∧ (g.along schedule m).run.tasks[i]? = some t ∧ t.node.id = id ∧
      time ≤ (g.along schedule m).session.now)

/-! ## What one move does to tasks and endings -/

theorem launch_tasks (g : Stage) : g.run.tasks <+: g.launch.run.tasks :=
  launch_induction (P := fun g' => g.run.tasks <+: g'.run.tasks) prefix_rfl
    fun _ _ _ _ h _ _ => h.trans (prefix_append _ _)

theorem settle_run (g : Stage) : g.settle.run = g.run := by
  unfold settle
  cases g.verdict <;> rfl

theorem observe_tasks (g : Stage) : g.observe.run.tasks = g.run.tasks := by
  cases hended : g.run.ended with
  | nil =>
      rw [observe_of_nil hended]
      split <;> rfl
  | cons e rest =>
      cases hresult : e.result with
      | ok output =>
          rw [observe_of_ok hended hresult]
          rfl
      | error f => rw [observe_of_error hended hresult]

theorem round_tasks (g : Stage) : g.round.run.tasks = g.launch.run.tasks := by
  rw [round_eq]
  split
  · rw [settle_run]
  · rw [settle_run, observe_tasks]

/-- A task stays as it is unless it is polled. -/
theorem mem_tasks_after (hgoes : g.verdict = .goesOn) {t : Task} (ht : t ∈ g.run.tasks) (m : Move) :
    t ∈ (g.after m).run.tasks ∨ ∃ i, m = .poll i ∧ g.run.tasks[i]? = some t := by
  cases m with
  | round =>
      left
      simp only [after, hgoes, round_tasks]
      exact g.launch_tasks.subset ht
  | meanwhile change =>
      left
      simpa only [after, hgoes] using ht
  | poll i =>
      simp only [after, hgoes]
      by_cases hi : g.run.tasks[i]? = some t
      · exact .inr ⟨i, rfl, hi⟩
      left
      obtain ⟨k, hk⟩ := mem_iff_getElem?.mp ht
      have hne : i ≠ k := by
        rintro rfl
        exact hi hk
      cases hu : g.run.tasks[i]? with
      | none => rwa [poll_of_none hu]
      | some u =>
          cases hpoll : u.call.poll g.session with
          | mk state s =>
              cases state with
              | waiting call =>
                  rw [poll_of_waiting hu hpoll]
                  exact mem_of_getElem? ((getElem?_set_ne hne).trans hk)
              | ended ending =>
                  rw [poll_of_ended hu hpoll]
                  exact mem_eraseIdx_iff_getElem?.mpr ⟨k, hne.symm, hk⟩

theorem poll_verdict (g : Stage) (i : Nat) : (g.poll i).verdict = g.verdict := by
  cases ht : g.run.tasks[i]? with
  | none => rw [poll_of_none ht]
  | some t =>
      cases hpoll : t.call.poll g.session with
      | mk state s =>
          cases state with
          | waiting call => rw [poll_of_waiting ht hpoll]
          | ended ending => rw [poll_of_ended ht hpoll]

theorem poll_ended (g : Stage) (i : Nat) : g.run.ended <+: (g.poll i).run.ended := by
  cases ht : g.run.tasks[i]? with
  | none => rw [poll_of_none ht]
  | some t =>
      cases hpoll : t.call.poll g.session with
      | mk state s =>
          cases state with
          | waiting call => rw [poll_of_waiting ht hpoll]
          | ended ending =>
              rw [poll_of_ended ht hpoll]
              exact prefix_append _ _

/-- Only a round takes endings away. -/
theorem ended_after (g : Stage) {m : Move} (hm : m ≠ .round) :
    g.run.ended <+: (g.after m).run.ended := by
  unfold after
  split
  · exact absurd rfl hm
  · exact g.poll_ended _
  · exact prefix_rfl
  · exact prefix_rfl

/-! ## What one move does to the history -/

theorem log_change {g g' : Stage} (h : Change g g') : g.log <+: g'.log := by
  cases h with
  | meanwhile s => exact prefix_rfl
  | start hgoes hready hroom => exact prefix_append _ _
  | wait hgoes ht hpoll => exact prefix_rfl
  | finish hgoes ht hpoll => exact prefix_rfl
  | complete hgoes hended hresult => exact prefix_append _ _
  | fail hgoes hended hresult => exact prefix_append _ _
  | succeed hgoes hready htasks hended => exact prefix_rfl
  | cancel hgoes hcancelled => exact prefix_rfl

/-- A history only grows. -/
theorem log_of_changes {g g' : Stage} (h : ReflTransGen Change g g') : g.log <+: g'.log := by
  induction h with
  | refl => exact prefix_rfl
  | tail _ hchange ih => exact ih.trans (log_change hchange)

/-- How many nodes have completed. -/
def completions (g : Stage) : Nat := (completedIn g.log).length

theorem completions_mono {g g' : Stage} (h : g.log <+: g'.log) :
    g.completions ≤ g'.completions :=
  (h.filterMap _).length_le

theorem completions_along (g : Stage) (schedule : Nat → Move) {m n : Nat} (h : m ≤ n) :
    (g.along schedule m).completions ≤ (g.along schedule n).completions := by
  induction n, h using Nat.le_induction with
  | base => exact Nat.le_refl _
  | succ n h ih => exact ih.trans (completions_mono (log_of_changes (changes_after _ _)))

theorem settle_verdict (g : Stage) : g.settle.verdict = g.verdict := by
  unfold settle
  cases hverdict : g.verdict <;> simp [hverdict]

theorem settle_of_goesOn (hgoes : g.verdict = .goesOn) : g.settle = g := by
  unfold settle
  rw [hgoes]

theorem settle_log (g : Stage) : g.settle.log = g.log := by
  unfold settle
  cases g.verdict <;> rfl

/-- A round that finds no ending and goes on leaves a task in flight. -/
theorem tasks_round_ne_nil (hgoes : g.round.verdict = .goesOn)
    (huncancelled : g.session.isCancelled g.run.scope = false) (hended : g.run.ended = []) :
    g.round.run.tasks ≠ [] := by
  intro hnil
  rw [round_tasks] at hnil
  have hended' : g.launch.run.ended = [] := by rw [launch_ended, hended]
  rw [round_eq, launch_isCancelled, launch_scope, huncancelled, if_neg Bool.false_ne_true,
    settle_verdict, observe_of_nil hended', hnil] at hgoes
  cases hgoes

/-- A round that finds an ending and goes on completes a node. -/
theorem completions_round (hgoes : g.round.verdict = .goesOn)
    (huncancelled : g.session.isCancelled g.run.scope = false) (hended : g.run.ended ≠ []) :
    g.completions < g.round.completions := by
  have hlaunch : g.completions ≤ g.launch.completions :=
    completions_mono (launch_induction (P := fun g' => g.log <+: g'.log) prefix_rfl
      fun _ _ _ _ h _ _ => h.trans (prefix_append _ _))
  obtain ⟨e, rest, hcons⟩ := exists_cons_of_ne_nil hended
  have hended' : g.launch.run.ended = e :: rest := by rw [launch_ended, hcons]
  have hround : g.round = g.launch.observe.settle := by
    rw [round_eq, launch_isCancelled, launch_scope, huncancelled, if_neg Bool.false_ne_true]
  cases hresult : e.result with
  | ok output =>
      have hlog : completedIn g.round.log = completedIn g.launch.log ++ [(e.node.id, output)] := by
        rw [hround, settle_log, observe_of_ok hended' hresult]
        exact (completedIn_append _ _).trans (congrArg _ (completedIn_completion _ _ _))
      have hlength := congrArg length hlog
      rw [length_append, length_singleton] at hlength
      unfold completions at hlaunch ⊢
      omega
  | error f =>
      rw [hround, settle_verdict, observe_of_error hended' hresult] at hgoes
      cases hgoes

/-! ## Progress -/

section Progress

variable (hgoes : ∀ n, (g.along schedule n).verdict = .goesOn)

include hgoes

theorem along_round {n : Nat} (hn : schedule n = .round) :
    g.along schedule (n + 1) = (g.along schedule n).round := by
  rw [along, hn]
  simp only [after, hgoes]

theorem along_poll {n i : Nat} (hn : schedule n = .poll i) :
    g.along schedule (n + 1) = (g.along schedule n).poll i := by
  rw [along, hn]
  simp only [after, hgoes]

/-- A task in flight is polled when it can go on. -/
theorem exists_poll (hfair : g.Fair schedule) (hids : ∀ n, (g.along schedule n).taskIds.Nodup)
    {t : Task} {time : Nat} (hearly : ∀ s, s.now < time → (t.call.poll s).1 = .waiting t.call)
    {m : Nat} (ht : t ∈ (g.along schedule m).run.tasks) :
    ∃ k i, m ≤ k ∧ schedule k = .poll i ∧ (g.along schedule k).run.tasks[i]? = some t ∧
      time ≤ (g.along schedule k).session.now := by
  -- Otherwise the task would stay as it is for good, and fairness gives it a turn.
  by_contra hnone
  push Not at hnone
  have hstays : ∀ k, m ≤ k → t ∈ (g.along schedule k).run.tasks := by
    intro k hk
    induction k, hk using Nat.le_induction with
    | base => exact ht
    | succ k hk ih =>
        rcases mem_tasks_after (hgoes k) ih (schedule k) with hmem | ⟨i, hi, hposition⟩
        · exact hmem
        · have hwaits := hearly _ (hnone k i hk hi hposition)
          have hpoll : t.call.poll (g.along schedule k).session =
              (.waiting t.call, (t.call.poll (g.along schedule k).session).2) :=
            Prod.ext hwaits rfl
          obtain ⟨hlt, -⟩ := List.getElem?_eq_some_iff.mp hposition
          rw [along_poll hgoes hi, poll_of_waiting hposition hpoll]
          exact mem_set hlt _
  obtain ⟨k, hk, hover | hgone | ⟨i, u, hi, hposition, hid, htime⟩⟩ :=
    hfair.polls m t.node.id time
  · exact hover (hgoes k)
  · exact hgone (mem_map_of_mem (hstays k hk))
  · obtain rfl : u = t := inj_on_of_nodup_map (hids k) (mem_of_getElem? hposition) (hstays k hk) hid
    exact absurd htime (Nat.not_le_of_lt (hnone k i hk hi hposition))

/-- A task whose call settles ends. -/
theorem exists_ended (hfair : g.Fair schedule) (hids : ∀ n, (g.along schedule n).taskIds.Nodup)
    {n : Node} {call : Call (Datum n.output)} {ending : Ending (Datum n.output)}
    (hsettles : call.Settles ending) {m : Nat}
    (ht : ⟨n, call⟩ ∈ (g.along schedule m).run.tasks) :
    ∃ k, m ≤ k ∧ (g.along schedule k).run.ended ≠ [] := by
  induction hsettles generalizing m with
  | @intro call due early ends goes ih =>
      obtain ⟨k, i, hk, hi, hposition, htime⟩ := exists_poll hgoes hfair hids early ht
      cases hpoll : call.poll (g.along schedule k).session with
      | mk state s =>
          cases state with
          | ended ending' =>
              refine ⟨k + 1, by omega, ?_⟩
              rw [along_poll hgoes hi, poll_of_ended hposition hpoll]
              simp
          | waiting rest =>
              have hnext : ⟨n, rest⟩ ∈ (g.along schedule (k + 1)).run.tasks := by
                obtain ⟨hlt, -⟩ := List.getElem?_eq_some_iff.mp hposition
                rw [along_poll hgoes hi, poll_of_waiting hposition hpoll]
                exact mem_set hlt _
              obtain ⟨k', hk', hended⟩ := ih _ rest htime (congrArg Prod.fst hpoll) hnext
              exact ⟨k', by omega, hended⟩

/-- An ending that is there is there when a round comes. -/
theorem exists_round_of_ended (hfair : g.Fair schedule) {m : Nat}
    (hended : (g.along schedule m).run.ended ≠ []) :
    ∃ k, m ≤ k ∧ schedule k = .round ∧ (g.along schedule k).run.ended ≠ [] := by
  by_contra hnone
  push Not at hnone
  have hstays : ∀ k, m ≤ k → (g.along schedule k).run.ended ≠ [] := by
    intro k hk
    induction k, hk using Nat.le_induction with
    | base => exact hended
    | succ k hk ih =>
        have hmove : schedule k ≠ .round := fun hround => ih (hnone k hk hround)
        exact fun hnil => ih (prefix_nil.mp (hnil ▸ (g.along schedule k).ended_after hmove))
  obtain ⟨k, hk, hover | hround⟩ := hfair.rounds m
  · exact hover (hgoes k)
  · exact hstays k hk (hnone k hk hround)

variable {j : Job} (haccounts : ∀ n, (g.along schedule n).Accounts j) {b : Behaviour}
  (hb : j.plan.Behaves b) (huncancelled : g.Uncancelled schedule) (hfair : g.Fair schedule)

include haccounts hb huncancelled hfair

/-- A round that finds an ending comes again and again. -/
theorem exists_round_with_ended (m : Nat) :
    ∃ k, m ≤ k ∧ schedule k = .round ∧ (g.along schedule k).run.ended ≠ [] := by
  obtain ⟨k, hk, hover | hk'⟩ := hfair.rounds m
  · exact absurd (hgoes k) hover
  by_cases hended : (g.along schedule k).run.ended = []
  -- A round that finds none leaves a task in flight, and that one settles.
  · have hround := along_round hgoes hk'
    have hverdict : (g.along schedule k).round.verdict = .goesOn := hround ▸ hgoes (k + 1)
    obtain ⟨t, ht⟩ := exists_mem_of_ne_nil _
      (tasks_round_ne_nil hverdict (huncancelled k (hgoes k)) hended)
    rw [← hround] at ht
    obtain ⟨hnode, v, c, -, hremains⟩ := (haccounts (k + 1)).tasks t ht
    have hsettles := (Node.settles_call (hb t.node hnode) v c).of_remains hremains
    obtain ⟨l, hl, hended'⟩ :=
      exists_ended hgoes hfair (fun n => (haccounts n).nodup_taskIds) hsettles ht
    obtain ⟨k', hk', hround'⟩ := exists_round_of_ended hgoes hfair hended'
    exact ⟨k', by omega, hround'⟩
  · exact ⟨k, hk, hk', hended⟩

/-- So there are ever more completions. -/
theorem exists_completions (count : Nat) : ∃ m, count ≤ (g.along schedule m).completions := by
  induction count with
  | zero => exact ⟨0, Nat.zero_le _⟩
  | succ count ih =>
      obtain ⟨m, hm⟩ := ih
      obtain ⟨k, hk, hk', hended⟩ :=
        exists_round_with_ended hgoes haccounts hb huncancelled hfair m
      have hround := along_round hgoes hk'
      have hverdict : (g.along schedule k).round.verdict = .goesOn := hround ▸ hgoes (k + 1)
      have hlt := completions_round hverdict (huncancelled k (hgoes k)) hended
      rw [← hround] at hlt
      have hle := g.completions_along schedule hk
      exact ⟨k + 1, by omega⟩

end Progress

/-- No more nodes complete than there are. -/
theorem Accounts.completions_le {j : Job} (h : g.Accounts j) (hplan : j.plan.Built)
    (hinputs : ∀ n ∈ j.plan.roots, ∃ v, j.inputs.get? n.id = some v) :
    g.completions ≤ j.plan.ids.length := by
  have hlength := (h.perm_ids hplan hinputs).length_eq
  have hcompleted : (g.occupants .completed).length = g.completions := by
    rw [occupants, Entries.keys, length_map, h.outputs, completions]
  simp only [Place.all, flatMap_cons, length_append] at hlength
  omega

/-- A run whose tasks settle ends. -/
theorem exists_over {j : Job} (hplan : j.plan.Built)
    (haccounts : ∀ n, (g.along schedule n).Accounts j)
    (hinputs : ∀ n ∈ j.plan.roots, ∃ v, j.inputs.get? n.id = some v) {b : Behaviour}
    (hb : j.plan.Behaves b) (huncancelled : g.Uncancelled schedule) (hfair : g.Fair schedule) :
    ∃ n, (g.along schedule n).verdict ≠ .goesOn := by
  by_contra hnone
  push Not at hnone
  obtain ⟨m, hm⟩ :=
    exists_completions hnone haccounts hb huncancelled hfair (j.plan.ids.length + 1)
  have hle := (haccounts m).completions_le hplan hinputs
  omega

/-! ## Results -/

theorem observe_verdict_ne_cancelled (hgoes : g.verdict = .goesOn) :
    g.observe.verdict ≠ .cancelled := by
  cases hended : g.run.ended with
  | nil =>
      rw [observe_of_nil hended]
      split <;> simp [hgoes]
  | cons e rest =>
      cases hresult : e.result with
      | ok output => simp [observe_of_ok hended hresult, hgoes]
      | error f => simp [observe_of_error hended hresult]

/-- A run that nobody cancels does not come to be cancelled. -/
theorem verdict_ne_cancelled (hopen : g.verdict = .goesOn) (huncancelled : g.Uncancelled schedule)
    (n : Nat) : (g.along schedule n).verdict ≠ .cancelled := by
  induction n with
  | zero => simp [along, hopen]
  | succ n ih =>
      by_cases hgoes : (g.along schedule n).verdict = .goesOn
      · rw [along]
        cases schedule n with
        | round =>
            simp only [after, hgoes]
            rw [round_eq, launch_isCancelled, launch_scope, huncancelled n hgoes,
              if_neg Bool.false_ne_true, settle_verdict]
            exact observe_verdict_ne_cancelled (by rw [launch_verdict, hgoes])
        | poll i =>
            simp only [after, hgoes]
            rw [poll_verdict, hgoes]
            simp
        | meanwhile change => simp [after, hgoes]
      · rwa [along_of_over (Nat.le_succ n) hgoes]

end Stage

namespace Job

variable {j : Job} {b : Behaviour}

/-- Nobody cancels the run while it goes on. -/
def Uncancelled (j : Job) (s : Session) (schedule : Nat → Move) : Prop :=
  ∀ r s', j.begin s = (.waiting r, s') → (Stage.opening r s').Uncancelled schedule

def Fair (j : Job) (s : Session) (schedule : Nat → Move) : Prop :=
  ∀ r s', j.begin s = (.waiting r, s') → (Stage.opening r s').Fair schedule

/-- Whatever result a run comes to agrees with the reference evaluation. -/
theorem agrees_of_result (hplan : j.plan.Built)
    (hinputs : ∀ n ∈ j.plan.roots, ∃ v, j.inputs.get? n.id = some v) (hb : j.plan.Behaves b)
    {s : Session} {schedule : Nat → Move} (huncancelled : j.Uncancelled s schedule) {n : Nat}
    {result : RunResult} (h : j.result? s schedule n = some result) :
    j.plan.Agrees j.inputs b result := by
  rcases j.result?_eq_some h with (⟨hnodes, rfl⟩ | ⟨f, hmissing, -⟩) | ⟨r, s', hbegin, hresult⟩
  · exact Plan.agrees_ok hplan (by simp [Plan.ids, hnodes, NodeValues.empty, Entries.keys])
      (by simp [hnodes])
  · obtain ⟨n, hn, hnone⟩ := j.exists_missing_of_rootInputs hmissing
    obtain ⟨v, hv⟩ := hinputs n hn
    simp [hnone] at hv
  · have haccounts := Stage.Accounts.along hplan hbegin schedule n
    cases result with
    | ok outputs =>
        obtain ⟨hverdict, rfl⟩ := (Stage.result?_eq_ok_iff _ _).mp hresult
        have hkeys := haccounts.perm_keys_of_succeeded hplan hinputs hverdict
        refine Plan.agrees_ok hplan hkeys fun m hm => ?_
        obtain ⟨w, hw⟩ := (haccounts.mem_keys_iff _).mp (hkeys.mem_iff.mpr (mem_map_of_mem hm))
        exact ⟨w, haccounts.comesTo hplan hb hm (haccounts.cameTo_of_completed hw),
          (haccounts.get?_outputs_eq_some_iff _ _).mpr hw⟩
    | error f =>
        rcases (Stage.result?_eq_error_iff _ _).mp hresult with ⟨m, hverdict⟩ | ⟨hverdict, -⟩
        · have hcame := haccounts.cameTo_of_failed hverdict
          obtain ⟨m', hm', hid, -⟩ := id hcame
          exact Plan.agrees_error (haccounts.comesTo hplan hb hm' (hid ▸ hcame))
        · exact absurd hverdict (Stage.verdict_ne_cancelled rfl (huncancelled r s' hbegin) n)

/-- A job with its own code is the job on other inputs. -/
theorem recoded_own (j : Job) (inputs : NodeValues) :
    j.recoded Code.own inputs = { j with inputs } := by
  have hnodes : j.plan.recoded Code.own = j.plan := by
    rw [Plan.recoded, show Node.recoded Code.own = id from rfl, map_id]
  rw [recoded, hnodes]

/-- A result stays. -/
theorem result?_mono {s : Session} {schedule : Nat → Move} {m n : Nat} {result : RunResult}
    (hmn : m ≤ n) (h : j.result? s schedule m = some result) :
    j.result? s schedule n = some result := by
  unfold result? at h ⊢
  cases hbegin : j.begin s with
  | mk state s' =>
      rw [hbegin] at h
      cases state with
      | ended first => exact h
      | waiting r =>
          dsimp only at h ⊢
          have hover : ((Stage.opening r s').along schedule m).verdict ≠ .goesOn := by
            intro hgoes
            rw [← Stage.result?_eq_none_iff, h] at hgoes
            cases hgoes
          rw [Stage.along_of_over hmn hover, h]

/-- A run has one result at most. -/
theorem result?_unique {s : Session} {schedule : Nat → Move} {m n : Nat} {result other : RunResult}
    (hm : j.result? s schedule m = some result) (hn : j.result? s schedule n = some other) :
    result = other := by
  have hm' := result?_mono (Nat.le_max_left m n) hm
  have hn' := result?_mono (Nat.le_max_right m n) hn
  exact Option.some.inj (hm'.symm.trans hn')

/-- A run whose rounds and tasks have their turns has a result. -/
theorem exists_result (hplan : j.plan.Built)
    (hinputs : ∀ n ∈ j.plan.roots, ∃ v, j.inputs.get? n.id = some v) (hb : j.plan.Behaves b)
    {s : Session} {schedule : Nat → Move} (huncancelled : j.Uncancelled s schedule)
    (hfair : j.Fair s schedule) : ∃ result n, j.result? s schedule n = some result := by
  unfold result?
  cases hbegin : j.begin s with
  | mk state s' =>
      cases state with
      | ended result => exact ⟨result, 0, rfl⟩
      | waiting r =>
          obtain ⟨n, hover⟩ := Stage.exists_over hplan (Stage.Accounts.along hplan hbegin schedule)
            hinputs hb (huncancelled r s' hbegin) (hfair r s' hbegin)
          have hsome := mt (Stage.result?_eq_none_iff _).mp hover
          obtain ⟨result, hresult⟩ := Option.ne_none_iff_exists'.mp hsome
          exact ⟨result, n, hresult⟩

/-- The schedule, the limit and the inputs of other nodes make no difference: a run that nobody
cancels agrees with the reference evaluation, and it comes to a result if all have their turns. -/
theorem agrees_with_reference (hplan : j.plan.Built)
    (hinputs : ∀ n ∈ j.plan.roots, ∃ v, j.inputs.get? n.id = some v) (hb : j.plan.Behaves b)
    (s : Session) (schedule : Nat → Move) (huncancelled : j.Uncancelled s schedule) :
    (∀ n result, j.result? s schedule n = some result → j.plan.Agrees j.inputs b result) ∧
    (j.Fair s schedule → ∃! result, ∃ n, j.result? s schedule n = some result) ∧
    ∀ inputs : NodeValues, (∀ n ∈ j.plan.roots, inputs.get? n.id = j.inputs.get? n.id) →
      ∀ n, Job.result? { j with inputs } s schedule n = j.result? s schedule n := by
  refine ⟨fun n result => agrees_of_result hplan hinputs hb huncancelled, fun hfair => ?_, ?_⟩
  · obtain ⟨result, n, hresult⟩ := exists_result hplan hinputs hb huncancelled hfair
    exact ⟨result, ⟨n, hresult⟩, fun other ⟨m, hother⟩ => result?_unique hother hresult⟩
  · intro inputs hsame n
    have hown := j.result?_recoded Code.own inputs hplan ⟨hsame, fun _ _ => .inl rfl⟩ s schedule n
    rwa [recoded_own] at hown

/-- The nodes of the small plan hand on what they take. -/
def relayed : Behaviour := fun n d =>
  match d.value.as? n.output with
  | some d => .value d
  | none => .fault .undescribed

theorem behaves_relayed : Plan.relays.Behaves relayed := by
  have hrelay : ∀ serial id (d : Datum (Node.relay serial id).input) c,
      ((Node.relay serial id).agent.start d c).Settles (relayed (.relay serial id) d) := by
    intro serial id d c
    have hkind : d.value.as? (Node.relay serial id).output = some d := dif_pos d.kind_eq
    have hvalue : relayed (.relay serial id) d = .value d := by
      unfold relayed
      rw [hkind]
    rw [hvalue]
    exact .act fun _ => .finish _
  intro n hn
  rcases mem_pair.mp hn with rfl | rfl
  · exact hrelay 0 "a"
  · exact hrelay 1 "b"

/-- The run of the small plan is over after nine moves. -/
theorem over_relays : ((Stage.opening (.relays (.text "x")) .second).along .inTurn 9).verdict ≠
    .goesOn := by
  have hsucceeded : ((Stage.opening (.relays (.text "x")) .second).along .inTurn 9).verdict =
      .succeeded := rfl
  simp [hsucceeded]

theorem uncancelled_relays : (relays (.text "x")).Uncancelled .initial .inTurn := by
  intro r s' hbegin n hgoes
  obtain ⟨rfl, rfl⟩ : Run.relays (.text "x") = r ∧ Session.second = s' := by
    simpa [begin_relays] using hbegin
  by_cases hn : n < 9
  · have hall : ∀ m < 9, let g := (Stage.opening (.relays (.text "x")) .second).along .inTurn m
        g.session.isCancelled g.run.scope = false := by decide
    exact hall n hn
  · rw [Stage.along_of_over (Nat.le_of_not_lt hn) over_relays] at hgoes
    exact absurd hgoes over_relays

theorem fair_relays : (relays (.text "x")).Fair .initial .inTurn := by
  intro r s' hbegin
  obtain ⟨rfl, rfl⟩ : Run.relays (.text "x") = r ∧ Session.second = s' := by
    simpa [begin_relays] using hbegin
  have hover : ∀ n, ((Stage.opening (.relays (.text "x")) .second).along .inTurn
      (max n 9)).verdict ≠ .goesOn := fun n =>
    Stage.along_of_over (Nat.le_max_right n 9) over_relays ▸ over_relays
  exact ⟨fun n => ⟨max n 9, Nat.le_max_left n 9, .inl (hover n)⟩,
    fun n _ _ => ⟨max n 9, Nat.le_max_left n 9, .inl (hover n)⟩⟩

theorem agrees_with_reference_relays :
    Plan.relays.Agrees ⟨[("a", .text "x")]⟩ relayed
      (.ok ⟨[("a", .text "x"), ("b", .text "x")]⟩) ∧
    ∃! result, ∃ n, (relays (.text "x")).result? .initial .inTurn n = some result := by
  have hinputs : ∀ n ∈ (relays (.text "x")).plan.roots,
      ∃ v, (relays (.text "x")).inputs.get? n.id = some v := by
    intro n hn
    obtain rfl : n = .relay 0 "a" := mem_singleton.mp hn
    exact ⟨.text "x", rfl⟩
  obtain ⟨hagrees, hresult, -⟩ := agrees_with_reference Plan.built_relays hinputs behaves_relayed
    .initial .inTurn uncancelled_relays
  exact ⟨hagrees 9 _ rfl, hresult fair_relays⟩

end Job

end Orchestration
