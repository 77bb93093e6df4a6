import Orchestration.Proofs.Call.Effects
import Orchestration.Proofs.Run.Completion

/-! # Outcomes in order

The tasks of a run end one after another, and the run observes their outcomes in that order. So the
failure that ends a run is that of the first outcome that is one. -/

namespace Orchestration

open List

/-- How a node in flight ended, and when. -/
structure Outcome where
  time : Nat
  node : Node
  result : Except Failure Value

/-- The outcome without its time. -/
def Outcome.untimed (o : Outcome) : Node × Except Failure Value := (o.node, o.result)

def Verdict.untimed : Verdict → List (Node × Except Failure Value)
  | failed n f => [(n, .error f)]
  | _ => []

namespace Stage

variable {g : Stage} {schedule : Nat → Move}

/-- The outcome that a move brings about, which is that of the task it polls, if that ends. -/
def newOutcomes (g : Stage) (m : Move) : List Outcome :=
  match g.verdict, m with
  | .goesOn, .poll position =>
    match g.run.tasks[position]? with
    | none => []
    | some t =>
      match (t.call.poll g.session).1 with
      | .ended ending => [⟨g.session.now, t.node, t.node.resultOf ending⟩]
      | .waiting _ => []
  | _, _ => []

/-- The outcomes after so many moves, in the order in which they came about. -/
def outcomes (g : Stage) (schedule : Nat → Move) : Nat → List Outcome
  | 0 => []
  | n + 1 => g.outcomes schedule n ++ (g.along schedule n).newOutcomes (schedule n)

/-- The outcomes that are no observed success: the failure that has ended the run, and those that it
has not observed. -/
def unsettled (g : Stage) : List (Node × Except Failure Value) :=
  g.verdict.untimed ++ g.run.ended.map fun e => (e.node, e.result)

theorem newOutcomes_of_over (h : g.verdict ≠ .goesOn) (m : Move) : g.newOutcomes m = [] := by
  unfold newOutcomes
  split <;> simp_all

/-! ## The first failure -/

theorem unsettled_observe (hgoes : g.verdict = .goesOn) :
    g.observe.unsettled = g.unsettled ∨
      ∃ n v, g.unsettled = (n, .ok v) :: g.observe.unsettled := by
  cases hended : g.run.ended with
  | nil =>
      left
      rw [observe_of_nil hended]
      split
      · simp [unsettled, hended, hgoes, Verdict.untimed]
      · rfl
  | cons e rest =>
      cases hresult : e.result with
      | ok output =>
          right
          rw [observe_of_ok hended hresult]
          exact ⟨e.node, output, by
            simp [unsettled, hended, hgoes, Verdict.untimed, hresult, Run.complete_eq]⟩
      | error f =>
          left
          rw [observe_of_error hended hresult]
          simp [unsettled, hended, hgoes, Verdict.untimed, hresult]

theorem unsettled_settle (g : Stage) : g.settle.unsettled = g.unsettled := by
  unfold unsettled
  rw [settle_run, settle_verdict]

theorem unsettled_launch (g : Stage) : g.launch.unsettled = g.unsettled := by
  unfold unsettled
  rw [launch_verdict, launch_ended]

theorem unsettled_round (hgoes : g.verdict = .goesOn) :
    g.round.unsettled = g.unsettled ∨ ∃ n v, g.unsettled = (n, .ok v) :: g.round.unsettled := by
  rw [round_eq]
  split
  · left
    rw [unsettled_settle]
    simp [unsettled, hgoes, Verdict.untimed]
  · rw [unsettled_settle, ← g.unsettled_launch]
    exact unsettled_observe (by rw [launch_verdict, hgoes])

theorem unsettled_poll (hgoes : g.verdict = .goesOn) (i : Nat) :
    (g.poll i).unsettled = g.unsettled ++ (g.newOutcomes (.poll i)).map Outcome.untimed := by
  unfold newOutcomes
  rw [hgoes]
  dsimp only
  cases ht : g.run.tasks[i]? with
  | none => simp [poll_of_none ht]
  | some t =>
      cases hpoll : t.call.poll g.session with
      | mk state s =>
          cases state with
          | waiting call =>
              rw [poll_of_waiting ht hpoll]
              simp [unsettled, hpoll]
          | ended ending =>
              rw [poll_of_ended ht hpoll]
              simp [unsettled, hpoll, Outcome.untimed, EndedTask.result]

/-- A move settles one success at most, the first outcome that was unsettled. -/
theorem unsettled_after (g : Stage) (m : Move) :
    (g.after m).unsettled = g.unsettled ++ (g.newOutcomes m).map Outcome.untimed ∨
      g.newOutcomes m = [] ∧ ∃ n v, g.unsettled = (n, .ok v) :: (g.after m).unsettled := by
  by_cases hgoes : g.verdict = .goesOn
  · cases m with
    | round =>
        have hnone : g.newOutcomes .round = [] := by simp [newOutcomes]
        simp only [after, hgoes, hnone, map_nil, append_nil, true_and]
        exact unsettled_round hgoes
    | poll i =>
        left
        simp only [after, hgoes]
        exact unsettled_poll hgoes i
    | meanwhile change =>
        left
        simp [after, hgoes, newOutcomes, unsettled]
  · left
    simp [after_of_over hgoes, newOutcomes_of_over hgoes]

/-- The outcomes are successes that the run has observed, and those that are unsettled. -/
theorem exists_settled (g : Stage) (hopen : g.verdict = .goesOn) (hnone : g.run.ended = [])
    (schedule : Nat → Move) (n : Nat) :
    ∃ settled rest, g.outcomes schedule n = settled ++ rest ∧
      (∀ o ∈ settled, ∃ v, o.result = .ok v) ∧
      rest.map Outcome.untimed = (g.along schedule n).unsettled := by
  induction n with
  | zero =>
      exact ⟨[], [], rfl, by simp, by simp [along, unsettled, hopen, hnone, Verdict.untimed]⟩
  | succ n ih =>
      obtain ⟨settled, rest, houtcomes, hsettled, hrest⟩ := ih
      rw [outcomes, along, houtcomes]
      rcases (g.along schedule n).unsettled_after (schedule n) with hmore | ⟨hnew, m, v, hfirst⟩
      · refine ⟨settled, rest ++ (g.along schedule n).newOutcomes (schedule n), ?_, hsettled, ?_⟩
        · rw [append_assoc]
        · rw [map_append, hrest, hmore]
      · rw [hfirst] at hrest
        obtain ⟨o, rest, rfl, ho, hrest⟩ := map_eq_cons_iff.mp hrest
        refine ⟨settled ++ [o], rest, by simp [hnew], ?_, hrest⟩
        intro o' ho'
        rcases mem_append.mp ho' with ho' | ho'
        · exact hsettled o' ho'
        · obtain rfl := mem_singleton.mp ho'
          exact ⟨v, (Prod.mk.inj ho).2⟩

/-! ## Time -/

theorem uncalled_launch (g : Stage) : g.session.Uncalled g.launch.session :=
  launch_induction (P := fun g' => g.session.Uncalled g'.session) (.refl _)
    fun g' _ _ _ h _ _ => h.trans (.derive g'.session g'.run.scope)

end Stage

namespace Run

theorem foldl_drop_eq (tasks : List Task) (s : Session) :
    tasks.foldl (fun s t => t.call.drop s) s = { s with
      journal := (tasks.reverse.flatMap fun t => t.call.guards.map (⟨s.now, ·⟩)) ++ s.journal } := by
  induction tasks generalizing s with
  | nil => rfl
  | cons t tasks ih =>
      rw [foldl_cons, ih, Call.drop_eq]
      simp

theorem halt_registry (r : Run) (s : Session) :
    (r.halt s).registry = s.registry.cancel r.scope.token := by
  simp [halt, foldl_drop_eq]

theorem uncalled_halt (r : Run) (s : Session) : s.Uncalled (r.halt s) := by
  have hdrop : s.Uncalled (r.tasks.foldl (fun s t => t.call.drop s) s) := by
    rw [foldl_drop_eq]
    exact ⟨⟨⟨Nat.le_refl _, Nat.le_refl _, Subset.refl _⟩, rfl⟩, rfl, rfl, rfl⟩
  exact hdrop.trans (.cancel _ r.scope)

/-- What is in flight is dropped at once. -/
theorem mem_journal_halt {r : Run} {t : Task} (ht : t ∈ r.tasks) {event : Event}
    (hevent : event ∈ t.call.guards) (s : Session) : ⟨s.now, event⟩ ∈ (r.halt s).journal := by
  refine Session.journal_subset_cancel _ _ ?_
  rw [foldl_drop_eq]
  refine mem_append_left _ (mem_flatMap.mpr ⟨t, mem_reverse.mpr ht, ?_⟩)
  exact mem_map.mpr ⟨event, hevent, rfl⟩

end Run

namespace Stage

variable {g : Stage} {schedule : Nat → Move}

theorem atOnce_settle (g : Stage) : g.session.AtOnce g.settle.session := by
  unfold settle
  split
  · exact .refl _
  · exact (g.run.uncalled_halt g.session).toAtOnce

theorem observe_session (g : Stage) : g.observe.session = g.session := by
  unfold observe
  split
  · split <;> rfl
  · split <;> rfl

theorem atOnce_round (g : Stage) : g.session.AtOnce g.round.session := by
  rw [round_eq]
  split
  · exact g.uncalled_launch.toAtOnce.trans (atOnce_settle { g.launch with verdict := .cancelled })
  · refine g.uncalled_launch.toAtOnce.trans ?_
    have h := atOnce_settle g.launch.observe
    rwa [observe_session] at h

theorem poll_session_of_some {i : Nat} {t : Task} (ht : g.run.tasks[i]? = some t) :
    (g.poll i).session = (t.call.poll g.session).2 := by
  cases hpoll : t.call.poll g.session with
  | mk state s =>
      cases state with
      | waiting call => rw [poll_of_waiting ht hpoll]
      | ended ending => rw [poll_of_ended ht hpoll]

theorem poll_session (g : Stage) (i : Nat) : (g.poll i).session = g.session ∨
    ∃ t ∈ g.run.tasks, (g.poll i).session = (t.call.poll g.session).2 := by
  cases ht : g.run.tasks[i]? with
  | none => exact .inl (by rw [poll_of_none ht])
  | some t => exact .inr ⟨t, mem_of_getElem? ht, poll_session_of_some ht⟩

/-- What a run and its tasks do takes no time. -/
theorem atOnce_after {m : Move} (hm : ∀ change, m ≠ .meanwhile change) (g : Stage) :
    g.session.AtOnce (g.after m).session := by
  unfold after
  split
  · exact g.atOnce_round
  · rename_i i _
    rcases g.poll_session i with h | ⟨t, -, h⟩
    · rw [h]
      exact .refl _
    · rw [h]
      exact t.call.atOnce_poll g.session
  · exact absurd rfl (hm _)
  · exact .refl _

theorem session_settle_of_over (h : g.verdict ≠ .goesOn) :
    g.settle.session = g.run.halt g.session := by
  unfold settle
  split
  · exact absurd ‹_› h
  · rfl

/-- A round that ends the run halts it. -/
theorem exists_halt_of_round (hover : g.round.verdict ≠ .goesOn) :
    ∃ s, g.session.AtOnce s ∧ g.round.session = g.round.run.halt s := by
  rw [round_eq] at hover ⊢
  by_cases hcancelled : g.launch.session.isCancelled g.launch.run.scope = true
  · rw [if_pos hcancelled, settle_run]
    exact ⟨_, g.uncalled_launch.toAtOnce, session_settle_of_over (by simp)⟩
  · rw [if_neg hcancelled] at hover ⊢
    rw [settle_verdict] at hover
    rw [settle_run, session_settle_of_over hover, observe_session]
    exact ⟨_, g.uncalled_launch.toAtOnce, rfl⟩

/-- A run that is over has been halted by its last round, and nothing has happened since. -/
theorem exists_halt (hopen : g.verdict = .goesOn) {n : Nat}
    (hover : (g.along schedule n).verdict ≠ .goesOn) :
    ∃ k < n, (g.along schedule k).verdict = .goesOn ∧
      g.along schedule (k + 1) = g.along schedule n ∧
      ∃ s, (g.along schedule k).session.AtOnce s ∧
        (g.along schedule n).session = (g.along schedule n).run.halt s := by
  induction n with
  | zero => exact absurd hopen hover
  | succ n ih =>
      by_cases hgoes : (g.along schedule n).verdict = .goesOn
      · refine ⟨n, Nat.lt_succ_self n, hgoes, rfl, ?_⟩
        rw [along] at hover ⊢
        cases hm : schedule n with
        | round =>
            simp only [after, hgoes, hm] at hover ⊢
            exact exists_halt_of_round hover
        | poll i => simp [after, hgoes, hm, poll_verdict] at hover
        | meanwhile change => simp [after, hgoes, hm] at hover
      · rw [along_of_over (Nat.le_succ n) hgoes] at hover ⊢
        obtain ⟨k, hk, hlast⟩ := ih hover
        exact ⟨k, Nat.lt_succ_of_lt hk, hlast⟩

/-! ## The order of time -/

end Stage

end Orchestration
