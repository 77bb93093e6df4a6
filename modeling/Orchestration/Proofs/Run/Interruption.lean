import Mathlib
import Orchestration.Proofs.Run.Concluding
import Orchestration.Proofs.Run.Unhindered
import Orchestration.Proofs.Timeline.Undisturbed

/-! # Runs that are cancelled from outside

On a timeline a run whose context is to be cancelled at some time has come to its own conclusion
before, or it ends then, as cancelled, even if its tasks end at the same time. -/

namespace Orchestration

open List Timeline

variable {j : Job}

/-! ## Invariants of executions -/

/-- What the turns of an execution keep, and what holds of a result that they come to. -/
structure Execution.Invariant (j : Job) (I : Execution → Session → Prop)
    (E : RunResult → Prop) : Prop where
  becomes : ∀ {e s}, I e s → j.Becomes e s
  ownTurn : ∀ {e e' s s'}, I e s → e.ownTurn s = (.waiting e', s') → I e' s'
  result : ∀ {e s result s'}, I e s → e.ownTurn s = (.ended result, s') → E result
  taskTurn : ∀ {e s} timer, I e s → I (e.taskTurn timer s).1 (e.taskTurn timer s).2
  advance : ∀ {e s} time, I e s → I e (s.advance time)

section

variable (hplan : j.plan.Built) (hnodes : j.plan.nodes ≠ [])
  (hinputs : ∀ n ∈ j.plan.roots, ∃ v, j.inputs.get? n.id = some v)

include hplan hnodes hinputs

/-- Whatever happens in between, an execution comes to its conclusion or is cancelled. -/
theorem Job.Becomes.invariant : Execution.Invariant j j.Becomes fun result =>
    j.Concludes result ∨ result = .error Run.cancelled where
  becomes h := h
  ownTurn := .ownTurn
  result h hturn := h.concludes_or_cancelled hplan hnodes hinputs hturn
  taskTurn := .taskTurn
  advance _ h := h.meanwhile _

/-- If nothing hinders it, it comes to its conclusion. -/
theorem Execution.Unhindered.invariant :
    Execution.Invariant j (fun e s => j.Becomes e s ∧ e.Unhindered j s) j.Concludes where
  becomes h := h.1
  ownTurn := by
    rintro e e' s s' ⟨hbecomes, h⟩ hturn
    refine ⟨hbecomes.ownTurn hturn, ?_⟩
    obtain ⟨g, hg, -, hgoesOn, hprogress⟩ := h.ownTurn hplan hnodes hinputs
    rw [hturn] at hprogress
    obtain ⟨r, hwaiting, rfl⟩ := continuing_eq_waiting hprogress.symm
    obtain ⟨hgoes, rfl, rfl⟩ := Stage.progress_eq_waiting hwaiting
    exact .underway hg hgoes (hgoesOn hgoes)
  result := by
    rintro e s result s' ⟨-, h⟩ hturn
    obtain ⟨g, hg, hverdict, -, hprogress⟩ := h.ownTurn hplan hnodes hinputs
    rw [hturn] at hprogress
    have hended := Stage.progress_eq_ended (continuing_eq_ended hprogress.symm)
    exact hg.moved.concludes hplan hverdict hended.1
  taskTurn timer h := ⟨h.1.taskTurn timer, h.2.taskTurn timer⟩
  advance time h := ⟨h.1.meanwhile _, h.2.advance time⟩

end

/-! ## Between turns -/

/-- A job that waits after its own turn is a run that has observed all endings. -/
theorem Job.Becomes.exists_poised {e e' : Execution} {s s' : Session} (h : j.Becomes e s)
    (hturn : e.ownTurn s = (.waiting e', s')) :
    ∃ r : Run, e' = .underway r ∧ r.Poised j ∧ r.ended = [] := by
  obtain rfl | ⟨r, rfl, -⟩ := h.underway
  · rw [Execution.ownTurn] at hturn
    split at hturn
    · cases hturn
    · rename_i hbegin
      obtain ⟨r', hr', rfl⟩ := Execution.continuing_eq_waiting hturn
      exact ⟨r', rfl, poised_of_ownTurn_begin hbegin hr'⟩
  · obtain ⟨r', hr', rfl⟩ := Execution.continuing_eq_waiting hturn
    exact ⟨r', rfl, h.poised.ownTurn hr'⟩

/-- A run that has observed all endings does nothing in its own turn. -/
theorem Run.Poised.ownTurn_of_none {r : Run} (h : r.Poised j) (hnone : r.ended = []) {s : Session}
    (huncancelled : s.isCancelled r.scope = false) : r.ownTurn s = (.waiting r, s) := by
  have htasks : r.tasks.isEmpty = false := by
    have hbusy := h.busy
    rw [hnone, length_nil, Nat.zero_add] at hbusy
    simpa using ne_nil_of_length_pos hbusy
  have hlaunch := launch_of_full h.full s
  rw [hnone] at hlaunch
  have hr : { r with ended := [] } = r := by rw [← hnone]
  rw [Run.ownTurn, hnone, hr, observe, length_nil]
  rw [length_nil] at hlaunch
  simp [hlaunch, huncancelled, htasks]

section

variable {I : Execution → Session → Prop} {E : RunResult → Prop} {c : Context}
  {time start : Nat} {slots : List (Slot Execution RunResult)} {i : Nat} {e : Execution}
  {s : Session}

theorem atOnce_engagement_ownTurn (start : Nat) (e : Engagement Execution) (s : Session) :
    s.AtOnce (e.ownTurn start s).2 := by
  rw [Engagement.ownTurn_session]
  exact Execution.atOnce_ownTurn e.work s

theorem atOnce_sweep_ownTurn (start : Nat) (slots : List (Slot Execution RunResult))
    (s : Session) : s.AtOnce (sweep (Engagement.ownTurn · start) slots s).2 :=
  sweep_induction .refl .trans (atOnce_engagement_ownTurn start) slots s

/-! ## Before the time -/

/-- A run between its turns while some context is to be cancelled at some time, or the report of one
that has ended before. -/
inductive Interruptible (I : Execution → Session → Prop) (E : RunResult → Prop) (c : Context)
    (time start : Nat) : Slot Execution RunResult → Session → Prop where
  | waiting {r : Run} {s : Session} (h : I (.underway r) s) (hnone : r.ended = []) :
      Interruptible I E c time start (.waiting ⟨.underway r, some c, some time⟩) s
  | ended {result : RunResult} {elapsed : Nat} {cancelled : Bool} {s : Session} (h : E result)
      (hearly : elapsed < time - start) :
      Interruptible I E c time start (.ended ⟨some result, elapsed, cancelled⟩) s

theorem exists_interruptible_ownTurn (hI : Execution.Invariant j I E) (h : I e s)
    (hslots : Undisturbed I slots) (hslot : slots[i]? = some (.waiting ⟨e, some c, some time⟩))
    (hearly : s.now - start < time - start) :
    ∃ slot, (sweep (Engagement.ownTurn · start) slots s).1[i]? = some slot ∧
      Interruptible I E c time start slot (sweep (Engagement.ownTurn · start) slots s).2 := by
  obtain ⟨s', honce, h', hstep, hkeeps⟩ :=
    hslots.exists_step (atOnce_engagement_ownTurn start) hslot h
  rw [Engagement.ownTurn_session] at hkeeps
  have hstill := ((e.atOnce_ownTurn s').still.trans honce.still).symm
  cases hturn : e.ownTurn s' with
  | mk state s'' =>
      have hafter : (Activity.ownTurn e s').2 = s'' := congrArg Prod.snd hturn
      rw [hturn] at hstill
      cases state with
      | ended result =>
          have hended : (Activity.ownTurn e s').1 = .ended result := congrArg Prod.fst hturn
          rw [Engagement.ownTurn_of_ended start hended, Engagement.report, hafter] at hstep
          exact ⟨_, hstep, .ended (hI.result h' hturn) (hstill ▸ hearly)⟩
      | waiting e' =>
          have hwaiting : (Activity.ownTurn e s').1 = .waiting e' := congrArg Prod.fst hturn
          rw [Engagement.ownTurn_of_waiting start hwaiting] at hstep
          obtain ⟨r, rfl, -, hnone⟩ := (hI.becomes h').exists_poised hturn
          exact ⟨_, hstep, .waiting (hkeeps _ (hafter ▸ hI.ownTurn h' hturn)) hnone⟩

theorem atOnce_taskTurn (slots : List (Slot Execution RunResult)) (s : Session) :
    s.AtOnce (taskTurn slots s).2 := by
  refine taskTurn_invariant (P := fun _ s' => s.AtOnce s') ?_ (.refl s)
  intro timer slots' s' h
  exact h.trans (sweep_induction .refl .trans
    (fun (e : Engagement Execution) s => e.work.atOnce_taskTurn timer s) slots' s')

theorem exists_interruptible_takeTurns (hI : Execution.Invariant j I E) (fuel : Nat)
    {slot : Slot Execution RunResult} (hslots : Undisturbed I slots)
    (hslot : slots[i]? = some slot) (h : Interruptible I E c time start slot s)
    (hearly : s.now - start < time - start) :
    ∃ slot', (takeTurns start fuel slots s).1[i]? = some slot' ∧
      Interruptible I E c time start slot' (takeTurns start fuel slots s).2 := by
  induction fuel generalizing slots slot s with
  | zero => exact ⟨slot, hslot, h⟩
  | succ fuel ih =>
      cases h with
      | ended h hbefore => exact ⟨_, takeTurns_of_ended start _ hslot s, .ended h hbefore⟩
      | waiting h hnone =>
          obtain ⟨work, htasks, hwork⟩ := hslots.exists_taskTurn
            (fun timer e s => e.atOnce_taskTurn timer s) (fun timer e s => hI.taskTurn timer)
            hslot h
          have hslots' := hslots.of_length (length_taskTurn slots s)
          have hearly' : (taskTurn slots s).2.now - start < time - start :=
            (atOnce_taskTurn slots s).still ▸ hearly
          obtain ⟨slot', hslot', hown⟩ :=
            exists_interruptible_ownTurn hI hwork hslots' htasks hearly'
          rw [takeTurns]
          dsimp only
          split
          · refine ih (hslots'.of_length (length_sweep _ _ _)) hslot' hown ?_
            rwa [(atOnce_sweep_ownTurn start _ _).still]
          · exact ⟨slot', hslot', hown⟩

theorem exists_interruptible_cancelDue (hslots : Undisturbed I slots)
    {slot : Slot Execution RunResult} (hslot : slots[i]? = some slot)
    (h : Interruptible I E c time start slot s) (hnow : s.now < time) :
    (sweep Engagement.cancelDue slots s).1[i]? = some slot ∧
      Interruptible I E c time start slot (sweep Engagement.cancelDue slots s).2 := by
  cases h with
  | ended h hbefore => exact ⟨sweep_of_ended _ hslot s, .ended h hbefore⟩
  | waiting h hnone =>
      obtain ⟨s', honce, h', hstep, hkeeps⟩ :=
        hslots.exists_step Engagement.atOnce_cancelDue hslot h
      rw [Engagement.cancelDue_of_lt rfl (honce.still ▸ hnow)] at hstep hkeeps
      exact ⟨hstep, .waiting (hkeeps _ h') hnone⟩

/-- In an instant before the time a run ends, or it waits on with all endings observed. -/
theorem exists_interruptible_instant (hI : Execution.Invariant j I E) (h : I e s)
    (hslots : Undisturbed I slots) (hslot : slots[i]? = some (.waiting ⟨e, some c, some time⟩))
    (hstart : start ≤ s.now) (hnow : s.now < time) :
    ∃ slot, (instant start slots s).1[i]? = some slot ∧
      Interruptible I E c time start slot (instant start slots s).2 := by
  have hearly : s.now - start < time - start := by omega
  obtain ⟨slot, hown, hslot'⟩ := exists_interruptible_ownTurn hI h hslots hslot hearly
  have hslots' := hslots.of_length (length_sweep (Engagement.ownTurn · start) slots s)
  have hstill := (atOnce_sweep_ownTurn start slots s).still
  obtain ⟨hdue, hslot''⟩ := exists_interruptible_cancelDue hslots' hown hslot' (hstill ▸ hnow)
  have hstill' := (sweep_induction (R := Session.AtOnce) .refl .trans Engagement.atOnce_cancelDue
    (sweep (Engagement.ownTurn · start) slots s).1
    (sweep (Engagement.ownTurn · start) slots s).2).still.trans hstill
  exact exists_interruptible_takeTurns hI _ (hslots'.of_length (length_sweep _ _ _)) hdue hslot''
    (hstill' ▸ hearly)

/-! ## At the time -/

/-- What is left of an execution after the instants before the time. -/
inductive Execution.Quiescent (j : Job) : Execution → Prop where
  | requested (hplan : j.plan.Built) (hnodes : j.plan.nodes ≠ [])
      (hinputs : ∀ n ∈ j.plan.roots, ∃ v, j.inputs.get? n.id = some v) : Quiescent j (.requested j)
  | underway (r : Run) (h : r.Poised j) (hnone : r.ended = []) : Quiescent j (.underway r)

/-- Nothing but a cancellation ends an execution before its tasks have had their turns. -/
theorem Execution.Quiescent.ownTurn (h : e.Quiescent j) (s : Session) :
    (e.ownTurn s).1 = .ended (.error Run.cancelled) ∨
      ∃ r : Run, (e.ownTurn s).1 = .waiting (.underway r) ∧ r.Poised j := by
  cases h with
  | requested hplan hnodes hinputs => exact Job.ownTurn_of_requested hplan hnodes hinputs s
  | underway r h hnone =>
      cases hscope : s.isCancelled r.scope with
      | false =>
          rw [Execution.ownTurn, h.ownTurn_of_none hnone hscope]
          exact .inr ⟨r, rfl, h⟩
      | true =>
          rw [Execution.ownTurn, Run.ownTurn, Run.observe, Run.launch_of_full h.full]
          simp only [hscope, if_true]
          exact .inl rfl

theorem exists_ownTurn (start : Nat) {e : Engagement Execution}
    (hslot : slots[i]? = some (.waiting e)) (s : Session) : ∃ s', s.AtOnce s' ∧
      (sweep (Engagement.ownTurn · start) slots s).1[i]? = some (e.ownTurn start s').1 := by
  obtain ⟨s', honce, hstep, -⟩ :=
    sweep_of_waiting .refl .trans (atOnce_engagement_ownTurn start) hslot s
  exact ⟨s', honce, hstep⟩

/-- The turns of its tasks leave a run poised. -/
theorem exists_poised_taskTurn {r : Run} {context : Option Context} {cancelAt : Option Nat}
    (h : r.Poised j) (hslot : slots[i]? = some (.waiting ⟨.underway r, context, cancelAt⟩))
    (s : Session) : ∃ r' : Run, r'.Poised j ∧
      (taskTurn slots s).1[i]? = some (.waiting ⟨.underway r', context, cancelAt⟩) := by
  let I : Execution → Session → Prop := fun e _ => ∃ r : Run, e = .underway r ∧ r.Poised j
  have hslots : Undisturbed I slots := .inl fun _ _ _ _ h => h
  obtain ⟨_, htasks, r', rfl, hr'⟩ := hslots.exists_taskTurn
    (fun timer e s => e.atOnce_taskTurn timer s)
    (by rintro timer _ s ⟨r, rfl, hr⟩; exact ⟨_, rfl, hr.taskTurn timer s⟩)
    hslot (s := s) ⟨r, rfl, h⟩
  exact ⟨r', hr', htasks⟩

/-- Once the context is cancelled, the first own turn after that of the tasks ends the run. -/
theorem exists_cancelled_takeTurns (start fuel : Nat) {r : Run} {context : Option Context}
    {cancelAt : Option Nat} (h : r.Poised j)
    (hslot : slots[i]? = some (.waiting ⟨.underway r, context, cancelAt⟩))
    (hcancelled : (taskTurn slots s).2.isCancelled j.context = true) : ∃ cancelled,
    (takeTurns start (fuel + 1) slots s).1[i]? =
      some (.ended ⟨some (.error Run.cancelled), s.now - start, cancelled⟩) := by
  obtain ⟨r', hr', htasks⟩ := exists_poised_taskTurn h hslot s
  obtain ⟨s', hbefore, hown⟩ := exists_ownTurn start htasks (taskTurn slots s).2
  have hturn := hr'.ownTurn_of_cancelled (hbefore.isCancelled hcancelled)
  have hended : (Activity.ownTurn (Execution.underway r') s').1 =
      .ended (.error Run.cancelled) := by
    rw [show Activity.ownTurn (Execution.underway r') s' = Execution.continuing (r'.ownTurn s')
      from rfl, hturn]
    rfl
  have hnow := ((Execution.underway r').atOnce_ownTurn s').still.trans
    (hbefore.still.trans (atOnce_taskTurn slots s).still)
  rw [Engagement.ownTurn_of_ended start hended, Engagement.report] at hown
  refine ⟨(context.map (Activity.ownTurn (Execution.underway r') s').2.isCancelled).getD false, ?_⟩
  rw [← hnow, takeTurns]
  dsimp only
  split
  · exact takeTurns_of_ended start fuel hown _
  · exact hown

/-- In the instant at the time a run ends as cancelled. -/
theorem exists_cancelled_instant (start : Nat) (h : e.Quiescent j) (hunder : j.context.Under c)
    (hslot : slots[i]? = some (.waiting ⟨e, some c, some time⟩)) (hnow : s.now = time) :
    ∃ cancelled, (instant start slots s).1[i]? =
      some (.ended ⟨some (.error Run.cancelled), time - start, cancelled⟩) := by
  obtain ⟨s', honce, hown⟩ := exists_ownTurn start hslot s
  rcases h.ownTurn s' with hended | ⟨r, hwaiting, hr⟩
  · have hstill := (e.atOnce_ownTurn s').still.trans honce.still
    rw [Engagement.ownTurn_of_ended start hended, Engagement.report] at hown
    have hdue := sweep_of_ended Engagement.cancelDue hown
      (sweep (Engagement.ownTurn · start) slots s).2
    rw [← hnow, ← hstill]
    exact ⟨_, takeTurns_of_ended start _ hdue _⟩
  · rw [Engagement.ownTurn_of_waiting start hwaiting] at hown
    have hstill := (atOnce_sweep_ownTurn start slots s).still
    obtain ⟨s₁, hbefore, hdue, hafter⟩ := sweep_of_waiting (R := Session.AtOnce) .refl .trans
      Engagement.atOnce_cancelDue hown (sweep (Engagement.ownTurn · start) slots s).2
    have htime : time ≤ s₁.now := by rw [hbefore.still, hstill, hnow]
    rw [Engagement.cancelDue_of_le rfl rfl htime] at hdue hafter
    have hdueStill := hafter.still.trans
      ((Session.cancel_now s₁ c).trans (hbefore.still.trans (hstill.trans hnow)))
    obtain ⟨fuel, hfuel⟩ := Nat.exists_eq_succ_of_ne_zero (turnLimit_pos (sweep
      Engagement.cancelDue (sweep (Engagement.ownTurn · start) slots s).1
      (sweep (Engagement.ownTurn · start) slots s).2).1).ne'
    have hcancelled := hafter.isCancelled
      ((Session.isCancelled_cancel_iff s₁ c j.context).mpr (.inl hunder))
    obtain ⟨cancelled, hturns⟩ := exists_cancelled_takeTurns start fuel hr hdue
      ((atOnce_taskTurn _ _).isCancelled hcancelled)
    rw [hdueStill] at hturns
    refine ⟨cancelled, ?_⟩
    rw [instant]
    dsimp only
    rw [hfuel]
    exact hturns

/-! ## The whole timeline -/

/-- The report of a run that had ended with such a result before some time, or was cancelled
then. -/
def Report.Interrupted (E : RunResult → Prop) (time start : Nat) (report : Report RunResult) :
    Prop :=
  (∃ result, report.result = some result ∧ E result ∧ report.elapsed < time - start) ∨
    report.result = some (.error Run.cancelled) ∧ report.elapsed = time - start

/-- On a timeline a run ends before its context, or one that it is derived from, is cancelled from
outside, or then. -/
theorem exists_interrupted (hI : Execution.Invariant j I E) {horizon : Nat}
    (htime : time < horizon) (h : I e s) (hquiescent : e.Quiescent j) (hunder : j.context.Under c)
    (hslots : Undisturbed I slots) (hslot : slots[i]? = some (.waiting ⟨e, some c, some time⟩))
    (hnow : s.now ≤ time) (hstart : start ≤ s.now) :
    ∃ report, (settle start horizon slots s).1[i]? = some report ∧
      report.Interrupted E time start := by
  induction hleft : horizon - s.now using Nat.strongRecOn generalizing slots s e with
  | _ left ih =>
      rcases Nat.lt_or_eq_of_le hnow with hbefore | hat
      · obtain ⟨slot, hinstant, hslot'⟩ :=
          exists_interruptible_instant hI h hslots hslot hstart hbefore
        cases hslot' with
        | ended h hearly =>
            exact ⟨_, settle_of_instant (hbefore.trans htime) hinstant, .inl ⟨_, rfl, h, hearly⟩⟩
        | @waiting r _ h hnone =>
            have hlt := lt_nextTime horizon (instant start slots s).1 s.now
            have hle : nextTime horizon (instant start slots s).1 s.now ≤ time :=
              nextTime_le hinstant (by simp [Engagement.times]) hbefore
            have hgoes : (underway (instant start slots s).1).isEmpty = false := by
              simpa using ne_nil_of_mem (mem_underway hinstant)
            rw [settle_of_lt (hbefore.trans htime)]
            simp only [hgoes, Bool.false_eq_true, if_false]
            refine ih _ ?_ (hI.advance _ h) (.underway r (hI.becomes h).poised hnone)
              (hslots.of_length (length_instant start slots s)) hinstant ?_ ?_ rfl
            all_goals simp only [Session.advance]
            all_goals omega
      · obtain ⟨cancelled, hinstant⟩ :=
          exists_cancelled_instant start hquiescent hunder hslot hat
        exact ⟨_, settle_of_instant (by omega) hinstant, .inr ⟨rfl, rfl⟩⟩

end

namespace Job

/-- A job alone on a timeline, in a context that is to be cancelled from outside. -/
def cancelledAt (j : Job) (c : Context) (time : Nat) : List (Slot Execution RunResult) :=
  [.waiting ⟨.requested j, some c, some time⟩]

/-- How a run of this job is cancelled, and when it may end otherwise. -/
structure CancelledAtOnce (j : Job) : Prop where
  /-- A run that is set up in a cancelled context ends in its first turn, without any agent's
  doing. -/
  before : ∀ s, s.isCancelled j.context = true → ∃ s',
    Execution.ownTurn (.requested j) s = (.ended (.error Run.cancelled), s') ∧ s.Uncalled s'
  /-- Once the context is cancelled the next turn of a run ends it. Nothing is started, and all that
  is in flight is dropped. -/
  between : ∀ (r : Run) (s : Session), j.Becomes (.underway r) s →
    s.isCancelled j.context = true →
    Execution.ownTurn (.underway r) s = (.ended (.error Run.cancelled), r.halt s) ∧
    s.Uncalled (r.halt s) ∧
    ∀ t ∈ r.tasks, ∀ event ∈ t.call.guards, ⟨s.now, event⟩ ∈ (r.halt s).journal
  /-- Unless its scope is cancelled a run ends with its conclusion only. -/
  otherwise : ∀ (r : Run) (s s' : Session) (result : RunResult), j.Becomes (.underway r) s →
    s.isCancelled r.scope = false →
    Execution.ownTurn (.underway r) s = (.ended result, s') → j.Concludes result
  /-- If the context is cancelled by the turn of the tasks, the run ends in the same instant,
  whatever these have come to. -/
  atOnce : ∀ (slots : List (Slot Execution RunResult)) (i : Nat) (e : Engagement Execution)
    (r : Run) (s : Session), slots[i]? = some (.waiting e) → e.work = .underway r →
    j.Becomes (.underway r) s → (taskTurn slots s).2.isCancelled j.context = true →
    ∀ start fuel, ∃ cancelled, (takeTurns start (fuel + 1) slots s).1[i]? =
      some (.ended ⟨some (.error Run.cancelled), s.now - start, cancelled⟩)
  /-- Whatever else goes on, a run whose context is to be cancelled from outside comes to its
  conclusion before, or it is cancelled, at that time at the latest. -/
  latest : ∀ (slots : List (Slot Execution RunResult)) (i : Nat) (c : Context)
    (time horizon : Nat) (s : Session),
    slots[i]? = some (.waiting ⟨.requested j, some c, some time⟩) →
    j.context.Under c → s.now ≤ time → time < horizon →
    ∃ report, (settle s.now horizon slots s).1[i]? = some report ∧ report.Interrupted
      (fun result => j.Concludes result ∨ result = .error Run.cancelled) time s.now
  /-- If it is alone and nothing else cancels it, it comes to its conclusion before, or it is
  cancelled at that very time. -/
  alone : ∀ (c : Context) (time horizon : Nat) (s : Session), j.Unhindered s →
    j.context.Under c → s.now ≤ time → time < horizon →
    ∃ report, (settle s.now horizon (j.cancelledAt c time) s).1[0]? = some report ∧
      report.Interrupted j.Concludes time s.now

/-- A run with nodes and their inputs whose context is cancelled comes to be cancelled at that time,
whatever its agents do. An empty plan has succeeded by then. -/
theorem cancelled_at_once (hplan : j.plan.Built) :
    (j.plan.nodes = [] → ∀ s, Execution.ownTurn (.requested j) s = (.ended (.ok .empty), s)) ∧
    (j.plan.nodes ≠ [] → (∀ n ∈ j.plan.roots, ∃ v, j.inputs.get? n.id = some v) →
      j.CancelledAtOnce) := by
  refine ⟨fun hnodes s => ownTurn_of_empty hnodes s, fun hnodes hinputs => ?_⟩
  have hquiescent : (Execution.requested j).Quiescent j := .requested hplan hnodes hinputs
  constructor
  case before => exact fun s hcancelled => ownTurn_of_cancelled_before hnodes hinputs hcancelled
  case between =>
    intro r s h hcancelled
    refine ⟨?_, r.uncalled_halt s, fun t ht event hevent => Run.mem_journal_halt ht hevent s⟩
    rw [Execution.ownTurn, h.poised.ownTurn_of_cancelled hcancelled]
    rfl
  case otherwise =>
    exact fun r s s' result h huncancelled hturn => h.concludes hplan huncancelled hturn
  case atOnce =>
    rintro slots i ⟨work, context, cancelAt⟩ r s hslot rfl h hcancelled start fuel
    exact exists_cancelled_takeTurns start fuel h.poised hslot hcancelled
  case latest =>
    intro slots i c time horizon s hslot hunder hnow htime
    have hslots : Undisturbed j.Becomes slots := .inl fun work s s' _ h => h.meanwhile s'
    exact exists_interrupted (Becomes.invariant hplan hnodes hinputs) htime (.requested s)
      hquiescent hunder hslots hslot hnow (Nat.le_refl _)
  case alone =>
    intro c time horizon s hunhindered hunder hnow htime
    exact exists_interrupted (Execution.Unhindered.invariant hplan hnodes hinputs) htime
      ⟨.requested s, .requested hunhindered⟩ hquiescent hunder (.inr rfl) rfl hnow (Nat.le_refl _)

end Job

/-! ## A node that waits for the cancellation -/

/-- A plan of one node, which hands on its text as soon as its context is cancelled. -/
def Plan.reacting : Plan where
  nodes := [⟨"a", .text, .text, ⟨.base 0, "a", fun d c => .await (.cancellation c)
    (.finish (.value d))⟩⟩]
  edges := []
  links := []
  order := ["a"]

theorem Plan.built_reacting : Plan.reacting.Built :=
  ⟨⟨Plan.reacting.nodes, Plan.reacting.edges⟩, by rfl⟩

def Job.reacting : Job where
  plan := .reacting
  inputs := ⟨[("a", .text "x")]⟩
  maxConcurrency := none
  context := ⟨0, ⟨0, []⟩, none⟩

/-- The node ends at the time with a value, but the run has been cancelled. -/
theorem Job.cancelled_at_once_reacting :
    ∃ report, (settle 0 10 (reacting.cancelledAt reacting.context 5) .second).1[0]? = some report ∧
      report.Interrupted reacting.Concludes 5 0 ∧
      report.result = some (.error Run.cancelled) ∧ report.elapsed = 5 := by
  have hinputs : ∀ n ∈ Job.reacting.plan.roots, ∃ v, Job.reacting.inputs.get? n.id = some v := by
    intro n hn
    obtain rfl := mem_singleton.mp hn
    exact ⟨.text "x", rfl⟩
  have hunhindered : Job.reacting.Unhindered .second := by
    refine ⟨by decide, by unfold Session.Issued; decide, fun n hn A hA input c hc => ?_⟩
    obtain rfl := mem_singleton.mp hn
    trivial
  have hcancelled := (Job.cancelled_at_once Plan.built_reacting).2 (cons_ne_nil _ _) hinputs
  obtain ⟨report, hreport, hinterrupted⟩ := hcancelled.alone Job.reacting.context 5 10 .second
    hunhindered (mem_singleton.mpr rfl) (by decide) (by decide)
  have hends : (settle 0 10 (reacting.cancelledAt reacting.context 5) .second).1[0]? =
      some ⟨some (.error Run.cancelled), 5, true⟩ := by cbv
  obtain rfl := Option.some.inj (hreport.symm.trans hends)
  exact ⟨_, hreport, hinterrupted, rfl, rfl⟩

end Orchestration
