import Orchestration.Proofs.Run.Capacity

/-! # What runs conclude with

A run ends of itself only when all nodes have completed or one has failed. For any other end its
scope must have been cancelled. -/

namespace Orchestration

open List

/-- What a run comes to of itself: an output for each node, or what a node of it has failed with. -/
inductive Job.Concludes (j : Job) : RunResult → Prop where
  | succeeded (g : Stage) (hmoved : j.Moved g) (hverdict : g.verdict = .succeeded)
      (hall : g.run.outputs.entries.keys.Perm j.plan.ids) : Concludes j (.ok g.run.outputs)
  | failed (g : Stage) (hmoved : j.Moved g) (n : Node) (f : Failure)
      (hverdict : g.verdict = .failed n f) (hcame : j.CameTo g.log n.id (.error f)) :
      Concludes j (.error f)

/-- A round of a run that is not cancelled leaves it so, and does not end it as cancelled. -/
theorem Stage.round_of_uncancelled {g : Stage} (hgoes : g.verdict = .goesOn)
    (huncancelled : g.session.isCancelled g.run.scope = false) :
    g.round.verdict ≠ .cancelled ∧ (g.round.verdict = .goesOn →
      g.round.session.isCancelled g.round.run.scope = false) := by
  rw [round_eq, launch_isCancelled, launch_scope, huncancelled, if_neg Bool.false_ne_true,
    settle_verdict]
  refine ⟨observe_verdict_ne_cancelled (by rw [launch_verdict, hgoes]), fun hverdict => ?_⟩
  rw [settle_of_goesOn hverdict, observe_session, observe_scope, launch_isCancelled, launch_scope,
    huncancelled]

theorem Stage.rounds_verdict_ne_cancelled {g : Stage} (hgoes : g.verdict = .goesOn)
    (huncancelled : g.session.isCancelled g.run.scope = false) (k : Nat) :
    (g.through (replicate k .round)).verdict ≠ .cancelled := by
  induction k generalizing g with
  | zero => simp [through, hgoes]
  | succ k ih =>
      obtain ⟨hverdict, hstill⟩ := round_of_uncancelled hgoes huncancelled
      rw [through_replicate_round hgoes]
      by_cases hgoes' : g.round.verdict = .goesOn
      · exact ih hgoes' (hstill hgoes')
      · rwa [through_of_over hgoes']

namespace Job

variable {j : Job}

/-- What the run of a stage comes to without being cancelled is a conclusion of the job. -/
theorem Moved.concludes {g : Stage} (h : j.Moved g) (hplan : j.plan.Built)
    (hverdict : g.verdict ≠ .cancelled) {result : RunResult} (hresult : g.result? = some result) :
    j.Concludes result := by
  have hreached : j.Reaches g := .of_moved h
  have haccounts := hreached.accounts hplan
  cases result with
  | ok outputs =>
      obtain ⟨hsucceeded, rfl⟩ := (g.result?_eq_ok_iff outputs).mp hresult
      exact .succeeded g h hsucceeded
        (haccounts.perm_keys_of_succeeded hplan hreached.exists_input hsucceeded)
  | error f =>
      obtain ⟨n, hfailed⟩ := ((g.result?_eq_error_iff f).mp hresult).resolve_right
        fun hcancelled => hverdict hcancelled.1
      exact .failed g h n f hfailed (haccounts.cameTo_of_failed hfailed)

namespace Becomes

variable {s s' : Session} {result : RunResult}

/-- The own turn of a run whose scope is not cancelled ends it only with a conclusion. -/
theorem concludes {r : Run} (h : j.Becomes (.underway r) s) (hplan : j.plan.Built)
    (huncancelled : s.isCancelled r.scope = false)
    (hturn : Execution.ownTurn (.underway r) s = (.ended result, s')) : j.Concludes result := by
  obtain hrequested | ⟨g, hg, hgoes, hr, rfl⟩ := h.turned
  · cases hrequested
  obtain rfl := Execution.underway.inj hr
  have hended := Execution.continuing_eq_ended hturn
  rw [Stage.ownTurn_eq_progress hgoes] at hended
  exact (hg.ownTurn hgoes).moved.concludes hplan
    (Stage.rounds_verdict_ne_cancelled hgoes huncancelled _) (Stage.progress_eq_ended hended).1

/-- Whatever its contexts are, a run ends with a conclusion or as cancelled. -/
theorem concludes_or_cancelled {e : Execution} (h : j.Becomes e s) (hplan : j.plan.Built)
    (hnodes : j.plan.nodes ≠ []) (hinputs : ∀ n ∈ j.plan.roots, ∃ v, j.inputs.get? n.id = some v)
    (hturn : e.ownTurn s = (.ended result, s')) :
    j.Concludes result ∨ result = .error Run.cancelled := by
  obtain hbegin | ⟨g, hg, hresult⟩ := h.turned_result hturn
  · obtain ⟨ready, -, hwaiting⟩ := exists_begin_eq_waiting hnodes hinputs s
    simp [hwaiting] at hbegin
  · by_cases hcancelled : g.verdict = .cancelled
    · right
      simpa [Stage.result?, hcancelled, eq_comm] using hresult
    · exact .inl (hg.moved.concludes hplan hcancelled hresult)

end Becomes

end Job

end Orchestration
