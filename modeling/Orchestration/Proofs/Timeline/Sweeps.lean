import Orchestration.Proofs.Call.Effects
import Orchestration.Timeline

/-! # Sweeps

What happens to one engagement when all take a step in order: it takes its own step, in a session
that the steps before it have led to. -/

namespace Orchestration

/-! ## Steps of one engagement -/

namespace Engagement

variable {τ ρ : Type} {e : Engagement τ} {s : Session}

theorem cancelDue_of_lt {time : Nat} (htime : e.cancelAt = some time) (h : s.now < time) :
    (e.cancelDue s : Slot τ ρ × Session) = (.waiting e, s) := by
  unfold cancelDue
  split
  · rename_i t c ht hc
    obtain rfl : time = t := by simpa [htime] using ht
    exact if_neg (Nat.not_le_of_lt h)
  · rfl

theorem cancelDue_of_le {time : Nat} {c : Context} (htime : e.cancelAt = some time)
    (hcontext : e.context = some c) (h : time ≤ s.now) :
    (e.cancelDue s : Slot τ ρ × Session) =
      (.waiting { e with cancelAt := none }, s.cancel c) := by
  unfold cancelDue
  rw [htime, hcontext]
  exact if_pos h

theorem atOnce_cancelDue (e : Engagement τ) (s : Session) :
    s.AtOnce (e.cancelDue s : Slot τ ρ × Session).2 := by
  obtain ⟨work, context, cancelAt⟩ := e
  cases cancelAt with
  | none => exact .refl s
  | some time =>
      cases context with
      | none => exact .refl s
      | some c =>
          by_cases h : time ≤ s.now
          · rw [cancelDue_of_le rfl rfl h]
            exact .cancel s c
          · rw [cancelDue_of_lt rfl (Nat.lt_of_not_le h)]
            exact .refl s

variable [Activity τ ρ]

theorem ownTurn_of_ended {result : ρ} (start : Nat)
    (h : (Activity.ownTurn e.work s).1 = .ended result) :
    (e.ownTurn start s).1 =
      .ended (e.report start (some result) (Activity.ownTurn e.work s).2) := by
  unfold ownTurn
  split <;> simp_all

theorem ownTurn_of_waiting {work : τ} (start : Nat)
    (h : (Activity.ownTurn e.work s).1 = .waiting work) :
    (e.ownTurn start s).1 = .waiting { e with work } := by
  unfold ownTurn
  split <;> simp_all

theorem ownTurn_session (e : Engagement τ) (start : Nat) (s : Session) :
    (e.ownTurn start s).2 = (Activity.ownTurn e.work s).2 := by
  unfold ownTurn
  split <;> simp_all

end Engagement

namespace Timeline

open List

variable {τ ρ : Type}

section

variable {step : Engagement τ → Session → Slot τ ρ × Session}

/-- What has ended stays as it is. -/
theorem sweep_of_ended (step : Engagement τ → Session → Slot τ ρ × Session)
    {slots : List (Slot τ ρ)} {i : Nat} {r : Report ρ} (h : slots[i]? = some (.ended r))
    (s : Session) :
    (sweep step slots s).1[i]? = some (.ended r) := by
  induction slots generalizing i s with
  | nil => simp at h
  | cons slot slots ih =>
      cases i with
      | zero =>
          obtain rfl : slot = .ended r := by simpa using h
          simp [sweep]
      | succ i =>
          have htail := ih (i := i) (by simpa using h)
          cases slot with
          | ended r' => simpa [sweep] using htail s
          | waiting e => simpa [sweep] using htail _

variable {R : Session → Session → Prop} (hrefl : ∀ s, R s s)
  (htrans : ∀ {s s' s''}, R s s' → R s' s'' → R s s'') (hstep : ∀ e s, R s (step e s).2)

include hrefl htrans hstep

/-- What each step does to the session at most, a sweep does at most. -/
theorem sweep_induction (slots : List (Slot τ ρ)) (s : Session) : R s (sweep step slots s).2 := by
  induction slots generalizing s with
  | nil => exact hrefl s
  | cons slot slots ih =>
      cases slot with
      | ended r => exact ih s
      | waiting e => exact htrans (hstep e s) (ih _)

/-- What has not ended takes its step between those of the others. -/
theorem sweep_of_waiting {slots : List (Slot τ ρ)} {i : Nat} {e : Engagement τ}
    (h : slots[i]? = some (.waiting e)) (s : Session) :
    ∃ s', R s s' ∧ (sweep step slots s).1[i]? = some (step e s').1 ∧
      R (step e s').2 (sweep step slots s).2 := by
  induction slots generalizing i s with
  | nil => simp at h
  | cons slot slots ih =>
      cases i with
      | zero =>
          obtain rfl : slot = .waiting e := by simpa using h
          exact ⟨s, hrefl s, by simp [sweep], sweep_induction hrefl htrans hstep slots _⟩
      | succ i =>
          have hi : slots[i]? = some (.waiting e) := by simpa using h
          cases slot with
          | ended r =>
              obtain ⟨s', hs', hslot, hrest⟩ := ih hi s
              exact ⟨s', hs', by simpa [sweep] using hslot, hrest⟩
          | waiting e' =>
              obtain ⟨s', hs', hslot, hrest⟩ := ih hi (step e' s).2
              exact ⟨s', htrans (hstep e' s) hs', by simpa [sweep] using hslot, hrest⟩

end

/-! ## The turn of the tasks -/

variable [Activity τ ρ]

/-- What the turn of all tasks with any timer, or without one, keeps, all these turns keep. -/
theorem taskTurn_invariant {P : List (Slot τ ρ) → Session → Prop}
    (hstep : ∀ timer slots s, P slots s → P (sweep (Engagement.taskTurn · timer) slots s).1
      (sweep (Engagement.taskTurn · timer) slots s).2)
    {slots : List (Slot τ ρ)} {s : Session} (h : P slots s) :
    P (taskTurn slots s).1 (taskTurn slots s).2 := by
  have hfold : ∀ (timers : List Timer) (p : List (Slot τ ρ) × Session), P p.1 p.2 →
      let after := timers.foldl
        (fun p timer => sweep (Engagement.taskTurn · (some timer)) p.1 p.2) p
      P after.1 after.2 := by
    intro timers
    induction timers with
    | nil => exact fun p hp => hp
    | cons timer timers ih => exact fun p hp => ih _ (hstep (some timer) p.1 p.2 hp)
  exact hstep none _ _ (hfold (dueTimers slots s) (slots, s) h)

/-- The work to which turns of its tasks lead, one for each of these timers and one for all tasks,
while the session changes in between at most as the relation says. -/
inductive TaskTurns (R : Session → Session → Prop) : List (Option Timer) → τ → Session → τ →
    Session → Prop where
  | done {work : τ} {s s' : Session} (h : R s s') : TaskTurns R [] work s work s'
  | turn {timer : Option Timer} {timers : List (Option Timer)} {work work' : τ}
      {s s' s'' : Session} (h : R s s')
      (rest : TaskTurns R timers (Activity.taskTurn timer work s').1
        (Activity.taskTurn timer work s').2 work' s'') :
      TaskTurns R (timer :: timers) work s work' s''

theorem TaskTurns.after {R : Session → Session → Prop}
    (htrans : ∀ {s s' s''}, R s s' → R s' s'' → R s s'') {timers : List (Option Timer)}
    {work work' : τ} {s s' s'' : Session} (h : R s s')
    (hturns : TaskTurns R timers work s' work' s'') : TaskTurns R timers work s work' s'' := by
  cases hturns with
  | done h' => exact .done (htrans h h')
  | turn h' rest => exact .turn (htrans h h') rest

section

variable {R : Session → Session → Prop} (hrefl : ∀ s, R s s)
  (htrans : ∀ {s s' s''}, R s s' → R s' s'' → R s s'')
  (hstep : ∀ timer (work : τ) s, R s (Activity.taskTurn timer work s).2)

include hrefl htrans hstep

end

end Timeline

end Orchestration
