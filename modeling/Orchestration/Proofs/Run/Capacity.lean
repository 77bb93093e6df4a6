import Orchestration.Proofs.Run.Cancellation
import Orchestration.Proofs.Run.Success

/-! # Room for tasks

A run never has more tasks than its limit allows, it waits only with that many tasks or with nothing
else to start, and it is without tasks only when every node of its plan has an output. -/

namespace Orchestration

open List Relation

/-- How many tasks there are: those at work, and those whose endings have not been observed. -/
def Run.inFlight (r : Run) : Nat := r.ended.length + r.tasks.length

/-- The nodes whose endings have been observed. -/
def observedIn (log : List Happening) : List String :=
  log.filterMap fun
    | .completed node _ => some node
    | .failed node _ => some node
    | _ => none

theorem observedIn_append (log more : List Happening) :
    observedIn (log ++ more) = observedIn log ++ observedIn more := filterMap_append

@[simp]
theorem observedIn_allReadied (entries : List (Node × Value)) :
    observedIn (allReadied entries) = [] := by
  simp [observedIn, allReadied]

theorem observedIn_completion (p : Plan) (n : Node) (output : Value) :
    observedIn (p.completion n output) = [n.id] := by
  rw [Plan.completion, ← singleton_append, observedIn_append, observedIn_allReadied]
  rfl

namespace Job

variable {j : Job}

theorem hasRoom_iff (k : Nat) :
    j.hasRoom k = true ↔ ∀ m, j.maxConcurrency = some m → k < max 1 m := by
  unfold hasRoom
  cases j.maxConcurrency <;> simp

theorem hasRoom_eq_false_iff (k : Nat) :
    j.hasRoom k = false ↔ ∃ m, j.maxConcurrency = some m ∧ max 1 m ≤ k := by
  rw [← Bool.not_eq_true, hasRoom_iff]
  simp only [not_forall, exists_prop, Nat.not_lt]

/-- No more tasks than the limit allows; a limit of zero allows one. -/
def Allows (j : Job) (r : Run) : Prop := ∀ m, j.maxConcurrency = some m → r.inFlight ≤ max 1 m

/-- A run that has started all it could. If it has no task, it has all outputs. -/
structure Fills (j : Job) (r : Run) : Prop where
  allows : j.Allows r
  full : r.ready = [] ∨ ∃ m, j.maxConcurrency = some m ∧ r.inFlight = max 1 m
  done : r.inFlight = 0 → r.outputs.entries.keys.Perm j.plan.ids

theorem Allows.full {r : Run} (h : j.Allows r)
    (hfull : r.ready = [] ∨ j.hasRoom r.inFlight = false) :
    r.ready = [] ∨ ∃ m, j.maxConcurrency = some m ∧ r.inFlight = max 1 m := by
  refine hfull.imp_right fun hroom => ?_
  obtain ⟨m, hm, hle⟩ := (hasRoom_eq_false_iff _).mp hroom
  exact ⟨m, hm, (h m hm).antisymm hle⟩

end Job

namespace Stage

variable {j : Job} {g g' : Stage}

/-! ## The limit -/

theorem allows_change (hjob : g.run.job = j) (h : j.Allows g.run) (hchange : Change g g') :
    j.Allows g'.run := by
  intro m hm
  have hle := h m hm
  unfold Run.inFlight at hle ⊢
  cases hchange with
  | meanwhile s => exact hle
  | start hgoes hready hroom =>
      rw [hjob] at hroom
      have hlt := (Job.hasRoom_iff _).mp hroom m hm
      simp only [startNext, length_append, length_singleton]
      omega
  | wait hgoes ht hpoll => simpa using hle
  | finish hgoes ht hpoll =>
      have hlength := (cons_eraseIdx_perm ht).length_eq
      simp only [length_cons, length_append, length_nil] at hlength ⊢
      omega
  | complete hgoes hended hresult =>
      rw [hended, length_cons] at hle
      simp only [Run.complete_eq]
      omega
  | fail hgoes hended hresult =>
      rw [hended, length_cons] at hle
      dsimp only
      omega
  | succeed hgoes hready htasks hended => exact hle
  | cancel hgoes hcancelled => exact hle

/-! ## Observations -/

/-- The endings that have been observed are the outputs and the failure that ended the run. -/
theorem observedIn_change
    (h : (observedIn g.log).Perm ((completedIn g.log).map (·.1) ++ g.verdict.failedIds))
    (hchange : Change g g') :
    (observedIn g'.log).Perm ((completedIn g'.log).map (·.1) ++ g'.verdict.failedIds) := by
  cases hchange with
  | meanwhile s => exact h
  | start hgoes hready hroom =>
      simpa [startNext, observedIn, completedIn] using h
  | wait hgoes ht hpoll => exact h
  | finish hgoes ht hpoll => exact h
  | complete hgoes hended hresult =>
      rw [hgoes] at h ⊢
      rw [observedIn_append, observedIn_completion, completedIn_append, completedIn_completion]
      simpa [Verdict.failedIds] using h.append_right _
  | fail hgoes hended hresult =>
      rw [hgoes] at h
      rw [observedIn_append, completedIn_append]
      simpa [Verdict.failedIds, observedIn, completedIn] using h.append_right [_]
  | succeed hgoes hready htasks hended => simpa [hgoes, Verdict.failedIds] using h
  | cancel hgoes hcancelled => simpa [hgoes, Verdict.failedIds] using h

end Stage

/-! ## Whatever changes come -/

/-- The stages that changes lead to once the job has been set up, those inside a round included. -/
inductive Job.Reaches (j : Job) : Stage → Prop where
  | opening {s s' : Session} {r : Run} (hbegin : j.begin s = (.waiting r, s')) :
      Reaches j (.opening r s')
  | change {g g' : Stage} (h : Reaches j g) (hchange : Stage.Change g g') : Reaches j g'

namespace Job.Reaches

variable {j : Job} {g g' : Stage}

theorem changes (h : j.Reaches g) (hchanges : ReflTransGen Stage.Change g g') : j.Reaches g' := by
  induction hchanges with
  | refl => exact h
  | tail _ hchange ih => exact ih.change hchange

theorem of_moved (h : j.Moved g) : j.Reaches g := by
  obtain ⟨s, r, s', moves, hbegin, rfl⟩ := h
  rw [← Stage.along_getD]
  exact (opening hbegin).changes (Stage.changes_along ..)

theorem accounts (h : j.Reaches g) (hplan : j.plan.Built) : g.Accounts j := by
  induction h with
  | opening hbegin => exact .opening hplan hbegin
  | change _ hchange ih => exact ih.change hplan hchange

theorem lineage_subset (h : j.Reaches g) :
    j.context.token.lineage ⊆ g.run.scope.token.lineage := by
  induction h with
  | opening hbegin =>
      obtain ⟨ready, -, rfl, -⟩ := j.begin_eq_waiting hbegin
      exact subset_cons_self _ _
  | change _ hchange ih => cases hchange <;> exact ih

theorem exists_input (h : j.Reaches g) :
    ∀ n ∈ j.plan.roots, ∃ v, j.inputs.get? n.id = some v := by
  induction h with
  | opening hbegin => exact fun n hn => exists_input_of_begin hbegin hn
  | change _ _ ih => exact ih

theorem allows (h : j.Reaches g) (hplan : j.plan.Built) : j.Allows g.run := by
  induction h with
  | opening hbegin =>
      obtain ⟨ready, -, rfl, -⟩ := j.begin_eq_waiting hbegin
      exact fun m _ => Nat.zero_le _
  | change h hchange ih => exact Stage.allows_change (h.accounts hplan).job ih hchange

theorem perm_observedIn (h : j.Reaches g) :
    (observedIn g.log).Perm ((completedIn g.log).map (·.1) ++ g.verdict.failedIds) := by
  induction h with
  | opening hbegin => simp [Stage.opening, Verdict.failedIds]
  | change _ hchange ih => exact Stage.observedIn_change ih hchange

/-- Endings are observed of nodes that no longer are in any other place. -/
theorem length_observedIn_le (h : j.Reaches g) (hplan : j.plan.Built) :
    (observedIn g.log).length ≤ j.plan.nodes.length := by
  have haccounts := h.accounts hplan
  have hobserved := h.perm_observedIn.length_eq
  have hplaces := (haccounts.perm_ids hplan h.exists_input).length_eq
  simp only [Stage.Place.all, flatMap_cons, flatMap_nil, length_append, length_nil,
    Stage.occupants, Entries.keys, haccounts.outputs, Plan.ids, length_map] at hplaces hobserved
  omega

/-- A run that goes on fills up before it waits. -/
theorem fills_launch (h : j.Reaches g) (hplan : j.plan.Built) (hgoes : g.verdict = .goesOn) :
    j.Fills g.launch.run := by
  have hlaunch : j.Reaches g.launch := h.changes (Stage.changes_launch hgoes)
  have haccounts := hlaunch.accounts hplan
  refine ⟨hlaunch.allows hplan, (hlaunch.allows hplan).full ?_, fun hidle => ?_⟩
  · have hfull := g.launch_exhausts
    rwa [haccounts.job] at hfull
  · -- with nothing in flight the run may succeed now, and then it has all outputs
    obtain ⟨hended, htasks⟩ := Nat.add_eq_zero_iff.mp hidle
    rw [length_eq_zero_iff] at hended htasks
    have hready := Stage.launch_ready_of_idle htasks hended
    have hsucceeded := haccounts.succeed (g.launch_verdict.trans hgoes) hready htasks hended
    exact hsucceeded.perm_keys_of_succeeded hplan h.exists_input rfl

end Job.Reaches

/-- A run that has something in flight and nothing that it could start is full. -/
theorem Run.Poised.fills {j : Job} {r : Run} (h : r.Poised j) (hallows : j.Allows r) :
    j.Fills r := by
  refine ⟨hallows, hallows.full ?_, fun hidle => absurd hidle h.busy.ne'⟩
  have hfull := h.full
  rwa [h.job] at hfull

/-- Between its turns, a run has something in flight and is full. -/
theorem Job.Becomes.fills {j : Job} (hplan : j.plan.Built) {r : Run} {s : Session}
    (h : j.Becomes (.underway r) s) : j.Fills r ∧ 0 < r.inFlight := by
  have hpoised := h.poised
  obtain hrequested | ⟨r', heq, g, hmoved, -, hrun, -⟩ := h.underway
  · cases hrequested
  obtain rfl := Execution.underway.inj heq
  subst hrun
  exact ⟨hpoised.fills ((Reaches.of_moved hmoved).allows hplan), hpoised.busy⟩

/-- A job that succeeds has an output for every node of its plan. -/
theorem Job.perm_keys_of_result {j : Job} (hplan : j.plan.Built) {s : Session}
    {schedule : Nat → Move} {n : Nat} {outputs : NodeValues}
    (h : j.result? s schedule n = some (.ok outputs)) :
    outputs.entries.keys.Perm j.plan.ids := by
  obtain (⟨hnone, hempty⟩ | ⟨f, -, hfailed⟩) | ⟨r, s', hbegin, hresult⟩ := result?_eq_some h
  · obtain rfl := Except.ok.inj hempty
    simp [Plan.ids, hnone, NodeValues.empty, Entries.keys]
  · cases hfailed
  · obtain ⟨hverdict, rfl⟩ := (Stage.result?_eq_ok_iff _ _).mp hresult
    exact (Stage.Accounts.along hplan hbegin schedule n).perm_keys_of_succeeded hplan
      (fun n hn => exists_input_of_begin hbegin hn) hverdict

/-- Whatever agents do and whatever else happens to the session: a run never has more tasks than its
limit allows and observes no more endings than there are nodes. When it waits, it has as many tasks
as are allowed or has nothing to start, and has some task as long as an output is missing. It
succeeds only with an output of every node. -/
theorem Job.run_bounded {j : Job} (hplan : j.plan.Built) :
    (∀ g, j.Reaches g → j.Allows g.run ∧ (observedIn g.log).length ≤ j.plan.nodes.length ∧
      (g.verdict = .goesOn → j.Fills g.launch.run)) ∧
    (∀ r s, j.Becomes (.underway r) s → j.Fills r ∧ 0 < r.inFlight) ∧
    (∀ s schedule n outputs, j.result? s schedule n = some (.ok outputs) →
      outputs.entries.keys.Perm j.plan.ids) ∧
    ∀ e s outputs s', j.Becomes e s → e.ownTurn s = (.ended (.ok outputs), s') →
      outputs.entries.keys.Perm j.plan.ids := by
  refine ⟨fun g hg => ?stages, fun r s hr => hr.fills hplan, ?schedules, ?turns⟩
  case stages => exact ⟨hg.allows hplan, hg.length_observedIn_le hplan, hg.fills_launch hplan⟩
  case schedules => exact fun s schedule n outputs h => perm_keys_of_result hplan h
  case turns =>
    intro e s outputs s' he hturn
    obtain ⟨s₀, schedule, n, hresult⟩ := he.exists_result hturn
    exact perm_keys_of_result hplan hresult

/-- With room for one of two nodes, the run waits with the first. -/
theorem Job.run_bounded_relays :
    let g := Stage.opening (.relays (.text "x")) .second
    Plan.relays.Built ∧ (relays (.text "x")).Fills g.launch.run ∧ g.launch.run.inFlight = 1 :=
  ⟨Plan.built_relays, ((run_bounded (j := relays (.text "x")) Plan.built_relays).1 _
    (.opening (begin_relays _))).2.2 rfl, rfl⟩

end Orchestration
