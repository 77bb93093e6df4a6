import Orchestration.Proofs.Timeline.Sweeps

/-! # Instants of a timeline

What has ended keeps its report, whatever turns are taken later. -/

namespace Orchestration.Timeline

open List

variable {τ ρ : Type} [Activity τ ρ]

/-! ## Slots -/

omit [Activity τ ρ] in
theorem mem_underway {slots : List (Slot τ ρ)} {i : Nat} {e : Engagement τ}
    (h : slots[i]? = some (.waiting e)) : e ∈ underway slots :=
  mem_filterMap.mpr ⟨.waiting e, mem_of_getElem? h, rfl⟩

omit [Activity τ ρ] in
/-- When all have ended, the reports are those of the slots. -/
theorem getElem?_reports {slots : List (Slot τ ρ)} (hnone : underway slots = []) {i : Nat}
    {r : Report ρ} (h : slots[i]? = some (.ended r)) : (reports slots)[i]? = some r := by
  induction slots generalizing i with
  | nil => simp at h
  | cons slot slots ih =>
      cases slot with
      | waiting e => simp [underway] at hnone
      | ended r' =>
          cases i with
          | zero => simpa [reports] using h
          | succ i => exact ih hnone h

theorem underway_giveUp (start : Nat) (slots : List (Slot τ ρ)) (s : Session) :
    underway (sweep (Engagement.giveUp · start) slots s).1 = [] := by
  induction slots generalizing s with
  | nil => rfl
  | cons slot slots ih =>
      cases slot with
      | ended r => exact ih s
      | waiting e => exact ih _

/-! ## What has ended -/

variable {slots : List (Slot τ ρ)} {i : Nat} {r : Report ρ}

theorem taskTurn_of_ended (h : slots[i]? = some (.ended r)) (s : Session) :
    (taskTurn slots s).1[i]? = some (.ended r) :=
  taskTurn_invariant (P := fun slots _ => slots[i]? = some (.ended r))
    (fun _ _ s h => sweep_of_ended _ h s) h

theorem takeTurns_of_ended (start fuel : Nat) (h : slots[i]? = some (.ended r)) (s : Session) :
    (takeTurns start fuel slots s).1[i]? = some (.ended r) := by
  induction fuel generalizing slots s with
  | zero => exact h
  | succ fuel ih =>
      have hturn := sweep_of_ended (Engagement.ownTurn · start) (taskTurn_of_ended h s)
        (taskTurn slots s).2
      rw [takeTurns]
      dsimp only
      split
      · exact ih hturn _
      · exact hturn

/-! ## One instant -/

/-- What all engagements do at one time. -/
def instant (start : Nat) (slots : List (Slot τ ρ)) (s : Session) : List (Slot τ ρ) × Session :=
  let (slots, s) := sweep (Engagement.ownTurn · start) slots s
  let (slots, s) := sweep Engagement.cancelDue slots s
  takeTurns start (turnLimit slots) slots s

/-- The time after an instant at which something can go on, but not after the horizon. -/
def nextTime (horizon : Nat) (slots : List (Slot τ ρ)) (now : Nat) : Nat :=
  max (now + 1) (min horizon (((underway slots).flatMap Engagement.times).min?.getD horizon))

theorem settle_of_lt {start horizon : Nat} {s : Session} (h : s.now < horizon) :
    settle start horizon slots s =
      let (slots, s') := instant start slots s
      if (underway slots).isEmpty then (reports slots, s')
      else settle start horizon slots (s'.advance (nextTime horizon slots s.now)) := by
  rw [settle]
  dsimp only
  rw [dif_pos h]
  rfl

theorem lt_nextTime (horizon : Nat) (slots : List (Slot τ ρ)) (now : Nat) :
    now < nextTime horizon slots now :=
  Nat.lt_of_lt_of_le (Nat.lt_succ_self now) (Nat.le_max_left _ _)

theorem nextTime_le {horizon now time : Nat} {e : Engagement τ}
    (hslot : slots[i]? = some (.waiting e))
    (htime : time ∈ e.times) (h : now < time) : nextTime horizon slots now ≤ time := by
  have hmem : time ∈ (underway slots).flatMap Engagement.times :=
    mem_flatMap.mpr ⟨e, mem_underway hslot, htime⟩
  have hmin := min?_getD_le_of_mem (k := horizon) hmem
  unfold nextTime
  omega

theorem instant_of_ended (start : Nat) (h : slots[i]? = some (.ended r)) (s : Session) :
    (instant start slots s).1[i]? = some (.ended r) :=
  takeTurns_of_ended start _ (sweep_of_ended _ (sweep_of_ended _ h _) _) _

theorem settle_of_ended (start horizon : Nat) (h : slots[i]? = some (.ended r)) (s : Session) :
    (settle start horizon slots s).1[i]? = some r := by
  induction hleft : horizon - s.now using Nat.strongRecOn generalizing slots s with
  | _ left ih =>
      by_cases hnow : s.now < horizon
      · have hinstant := instant_of_ended start h s
        rw [settle_of_lt hnow]
        dsimp only
        split
        · rename_i hover
          exact getElem?_reports (List.isEmpty_iff.mp hover) hinstant
        · refine ih _ ?_ hinstant _ rfl
          have hnext := lt_nextTime horizon (instant start slots s).1 s.now
          simp only [Session.advance]
          omega
      · rw [settle]
        dsimp only
        rw [dif_neg hnow]
        exact getElem?_reports (underway_giveUp _ _ _) (sweep_of_ended _
          (sweep_of_ended (Engagement.ownTurn · start) h s) _)

/-- What ends in an instant has its report. -/
theorem settle_of_instant {start horizon : Nat} {s : Session} (hnow : s.now < horizon)
    (h : (instant start slots s).1[i]? = some (.ended r)) :
    (settle start horizon slots s).1[i]? = some r := by
  rw [settle_of_lt hnow]
  dsimp only
  split
  · rename_i hover
    exact getElem?_reports (List.isEmpty_iff.mp hover) h
  · exact settle_of_ended start horizon h _

/-- Some instant of the timeline comes at this time and leaves these slots. -/
inductive Passes (start horizon : Nat) :
    List (Slot τ ρ) → Session → Nat → List (Slot τ ρ) → Prop where
  | now {slots : List (Slot τ ρ)} {s : Session} (h : s.now < horizon) :
      Passes start horizon slots s s.now (instant start slots s).1
  | later {slots after : List (Slot τ ρ)} {s : Session} {time : Nat} (h : s.now < horizon)
      (hwaits : (underway (instant start slots s).1).isEmpty = false)
      (hlater : Passes start horizon (instant start slots s).1 ((instant start slots s).2.advance
        (nextTime horizon (instant start slots s).1 s.now)) time after) :
      Passes start horizon slots s time after

/-- There are turns in every instant. -/
theorem turnLimit_pos (slots : List (Slot τ ρ)) : 0 < turnLimit slots := by
  have hfold : ∀ (es : List (Engagement τ)) (n : Nat), 0 < n →
      0 < es.foldl (fun n e => n + Activity.taskLimit e.work) n := by
    intro es
    induction es with
    | nil => exact fun n hn => hn
    | cons e es ih => exact fun n hn => ih _ (Nat.add_pos_left hn _)
  exact hfold _ 1 Nat.one_pos

end Orchestration.Timeline
