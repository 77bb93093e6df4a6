import Orchestration.Proofs.Run.Turns
import Orchestration.Proofs.Timeline.Instants

/-! # A run alone on a timeline

What a timeline does with a run alone is done by the stage of the run: the run's own turns and those
of its tasks each lead from one stage to another. -/

namespace Orchestration

open List Timeline

/-- A job alone on a timeline, in a context that is not cancelled from outside. -/
def Job.alone (j : Job) (c : Option Context) : List (Slot Execution RunResult) :=
  [.waiting ⟨.requested j, c, none⟩]

namespace Stage

/-- The stage after the run's own turn. -/
def ownTurn (g : Stage) : Stage := g.through (replicate (g.run.ended.length + 1) .round)

/-- The stage after the turn of the tasks that wait for a timer, or of all tasks. -/
def taskTurn (g : Stage) (timer : Option Timer) : Stage :=
  match g.verdict with
  | .goesOn => { g with
      run := (g.run.taskTurn timer g.session).1
      session := (g.run.taskTurn timer g.session).2 }
  | _ => g

/-- The stage after the turns of the tasks that wait for some timers, one after another, and then of
all tasks. -/
def tasksTurn (g : Stage) (timers : List Timer) : Stage :=
  (timers.foldl (fun g timer => g.taskTurn (some timer)) g).taskTurn none

/-- The run of the stage on a timeline. -/
def slot (g : Stage) (start : Nat) (c : Option Context) : Slot Execution RunResult :=
  match g.result? with
  | none => .waiting ⟨.underway g.run, c, none⟩
  | some result =>
    .ended ⟨some result, g.session.now - start, (c.map g.session.isCancelled).getD false⟩

variable {g : Stage} {start : Nat} {c : Option Context}

theorem slot_of_goesOn (hgoes : g.verdict = .goesOn) :
    g.slot start c = .waiting ⟨.underway g.run, c, none⟩ := by
  rw [slot, g.result?_eq_none_iff.mpr hgoes]

/-- The clock does not pass the timer of a task. -/
theorem nextTime_le_due (hgoes : g.verdict = .goesOn) {t : Task} (ht : t ∈ g.run.tasks) {u : Timer}
    (hu : u ∈ t.call.nextTimer) {horizon now : Nat} (hlater : now < u.due) :
    nextTime horizon [g.slot start c] now ≤ u.due := by
  refine Timeline.nextTime_le (i := 0) (e := ⟨.underway g.run, c, none⟩) ?_ ?_ hlater
  · rw [slot_of_goesOn hgoes]
    rfl
  · have htimer : u ∈ Execution.timers (.underway g.run) := mem_filterMap.mpr ⟨t, ht, hu⟩
    exact mem_append_left _ (mem_map_of_mem htimer)

/-- On a timeline nothing is seen of what happens to the session in between. -/
theorem slot_meanwhile (hgoes : g.verdict = .goesOn) (s : Session) :
    { g with session := s }.slot start c = g.slot start c := by
  rw [slot_of_goesOn hgoes, slot_of_goesOn (by exact hgoes)]

theorem progress_of_goesOn (hgoes : g.verdict = .goesOn) :
    g.progress = (.waiting g.run, g.session) := by
  rw [progress, g.result?_eq_none_iff.mpr hgoes]

theorem slot_of_over {result : RunResult} (h : g.result? = some result) : g.slot start c =
    .ended ⟨some result, g.session.now - start, (c.map g.session.isCancelled).getD false⟩ := by
  rw [slot, h]

theorem exists_slot_of_over (hover : g.verdict ≠ .goesOn) (start : Nat) (c : Option Context) :
    ∃ report, g.slot start c = .ended report := by
  cases hresult : g.result? with
  | none => exact absurd (g.result?_eq_none_iff.mp hresult) hover
  | some result => exact ⟨_, slot_of_over hresult⟩

theorem ownTurn_of_over (hover : g.verdict ≠ .goesOn) : g.ownTurn = g :=
  through_of_over hover _

theorem taskTurn_of_goesOn (hgoes : g.verdict = .goesOn) (timer : Option Timer) :
    g.taskTurn timer = { g with
      run := (g.run.taskTurn timer g.session).1
      session := (g.run.taskTurn timer g.session).2 } := by
  unfold taskTurn
  rw [hgoes]

theorem taskTurn_of_over (hover : g.verdict ≠ .goesOn) (timer : Option Timer) :
    g.taskTurn timer = g := by
  unfold taskTurn
  split
  · contradiction
  · rfl

/-! ## Turns -/

theorem sweep_ownTurn (g : Stage) (start : Nat) (c : Option Context) :
    sweep (Engagement.ownTurn · start) [g.slot start c] g.session =
      ([g.ownTurn.slot start c], g.ownTurn.session) := by
  by_cases hgoes : g.verdict = .goesOn
  · have hturn : Activity.ownTurn (Execution.underway g.run) g.session =
        Execution.continuing g.ownTurn.progress :=
      congrArg Execution.continuing (ownTurn_eq_progress hgoes)
    rw [slot_of_goesOn hgoes, sweep, Engagement.ownTurn, hturn]
    unfold progress slot
    cases g.ownTurn.result? <;> rfl
  · obtain ⟨report, hslot⟩ := exists_slot_of_over hgoes start c
    rw [ownTurn_of_over hgoes, hslot]
    rfl

theorem sweep_taskTurn (timer : Option Timer) (g : Stage) (start : Nat) (c : Option Context) :
    sweep (Engagement.taskTurn · timer) [g.slot start c] g.session =
      ([(g.taskTurn timer).slot start c], (g.taskTurn timer).session) := by
  by_cases hgoes : g.verdict = .goesOn
  · rw [taskTurn_of_goesOn hgoes, slot_of_goesOn hgoes, slot_of_goesOn (by exact hgoes)]
    rfl
  · obtain ⟨report, hslot⟩ := exists_slot_of_over hgoes start c
    rw [taskTurn_of_over hgoes, hslot]
    rfl

theorem exists_tasksTurn (g : Stage) (start : Nat) (c : Option Context) :
    ∃ timers, Timeline.taskTurn [g.slot start c] g.session =
      ([(g.tasksTurn timers).slot start c], (g.tasksTurn timers).session) := by
  have hfold : ∀ (timers : List Timer) (g : Stage), timers.foldl
      (fun (slots, s) timer => sweep (Engagement.taskTurn · (some timer)) slots s)
        ([g.slot start c], g.session) =
      ([(timers.foldl (fun g timer => g.taskTurn (some timer)) g).slot start c],
        (timers.foldl (fun g timer => g.taskTurn (some timer)) g).session) := by
    intro timers
    induction timers with
    | nil => exact fun g => rfl
    | cons timer timers ih =>
        intro g
        rw [foldl_cons, foldl_cons]
        dsimp only
        rw [sweep_taskTurn]
        exact ih (g.taskTurn (some timer))
  refine ⟨dueTimers [g.slot start c] g.session, ?_⟩
  rw [Timeline.taskTurn, hfold]
  exact sweep_taskTurn none _ start c

/-- Whether tasks have ended that the run, if it goes on, has not observed. -/
def HasNews (g : Stage) : Prop := g.verdict = .goesOn ∧ g.run.ended ≠ []

theorem any_hasNews_iff (g : Stage) (start : Nat) (c : Option Context) :
    ((underway [g.slot start c]).any fun e => Activity.hasNews e.work) = true ↔ g.HasNews := by
  by_cases hgoes : g.verdict = .goesOn
  · rw [slot_of_goesOn hgoes]
    simp [underway, Activity.hasNews, Execution.hasNews, HasNews, hgoes]
  · obtain ⟨report, hslot⟩ := exists_slot_of_over hgoes start c
    rw [hslot]
    simp [underway, HasNews, hgoes]

/-- One turn of the tasks and the own turn after it. -/
theorem exists_takeTurns_succ (g : Stage) (start fuel : Nat) (c : Option Context) :
    ∃ timers, let g' := g.tasksTurn timers
      (g'.HasNews → takeTurns start (fuel + 1) [g.slot start c] g.session =
        takeTurns start fuel [g'.ownTurn.slot start c] g'.ownTurn.session) ∧
      (¬ g'.HasNews → takeTurns start (fuel + 1) [g.slot start c] g.session =
        ([g'.ownTurn.slot start c], g'.ownTurn.session)) := by
  obtain ⟨timers, htasks⟩ := g.exists_tasksTurn start c
  refine ⟨timers, fun hnews => ?_, fun hnone => ?_⟩
  · rw [takeTurns, htasks]
    dsimp only
    rw [(any_hasNews_iff _ start c).mpr hnews, sweep_ownTurn]
    rfl
  · rw [takeTurns, htasks]
    dsimp only
    rw [sweep_ownTurn, if_neg (mt (any_hasNews_iff _ start c).mp hnone)]

/-- What turns of its tasks keep holds after all their turns. -/
theorem tasksTurn_induction {P : Stage → Prop} (h : P g)
    (hturn : ∀ g timer, P g → P (g.taskTurn timer)) (timers : List Timer) :
    ∃ g', P g' ∧ g.tasksTurn timers = g'.taskTurn none := by
  refine ⟨timers.foldl (fun g timer => g.taskTurn (some timer)) g, ?_, rfl⟩
  induction timers generalizing g with
  | nil => exact h
  | cons timer timers ih => exact ih (hturn g _ h)

/-- In an instant of its timeline, a run takes its own turn, and then its tasks and the run take
turns, as often as there are nodes and once more. -/
theorem instant_eq (g : Stage) (start : Nat) (c : Option Context) :
    instant start [g.slot start c] g.session =
      takeTurns start (turnLimit [g.ownTurn.slot start c]) [g.ownTurn.slot start c]
        g.ownTurn.session := by
  have hdue : sweep Engagement.cancelDue [g.ownTurn.slot start c] g.ownTurn.session =
      ([g.ownTurn.slot start c], g.ownTurn.session) := by
    unfold slot
    cases g.ownTurn.result? <;> rfl
  rw [instant, sweep_ownTurn]
  dsimp only
  rw [hdue]

theorem turnLimit_slot (hgoes : g.verdict = .goesOn) :
    turnLimit [g.slot start c] = 1 + g.run.job.plan.nodes.length := by
  rw [slot_of_goesOn hgoes]
  rfl

theorem takeTurns_of_over (hover : g.verdict ≠ .goesOn) (fuel : Nat) :
    takeTurns start fuel [g.slot start c] g.session = ([g.slot start c], g.session) := by
  induction fuel with
  | zero => rfl
  | succ fuel ih =>
      have htasks : ∀ timers, g.tasksTurn timers = g := by
        intro timers
        obtain ⟨g', rfl, hturn⟩ := tasksTurn_induction (g := g) (P := (· = g)) rfl
          (by rintro _ timer rfl; exact taskTurn_of_over hover timer) timers
        rw [hturn, taskTurn_of_over hover]
      obtain ⟨timers, -, hturns⟩ := g.exists_takeTurns_succ start fuel c
      rw [htasks, ownTurn_of_over hover] at hturns
      exact hturns fun hnews => hover hnews.1

/-- A job is set up in its first instant. -/
theorem instant_requested {j : Job} {s s' : Session} {r : Run}
    (hbegin : j.begin s = (.waiting r, s')) (start : Nat) (c : Option Context) :
    instant start (j.alone c) s =
      instant start [(opening r s').slot start c] (opening r s').session := by
  have hturn : Activity.ownTurn (Execution.requested j) s =
      Activity.ownTurn (Execution.underway r) s' := by
    change Execution.ownTurn (.requested j) s = Execution.ownTurn (.underway r) s'
    rw [Execution.ownTurn, hbegin]
    rfl
  have hsweep : sweep (Engagement.ownTurn · start) (j.alone c) s =
      sweep (Engagement.ownTurn · start) [.waiting ⟨Execution.underway r, c, none⟩] s' := by
    simp only [Job.alone, sweep, Engagement.ownTurn, hturn]
    rfl
  rw [slot_of_goesOn rfl, instant, hsweep]
  rfl

end Stage

end Orchestration
