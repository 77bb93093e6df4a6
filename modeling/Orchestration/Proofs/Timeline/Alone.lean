import Orchestration.Proofs.Call.Timing
import Orchestration.Proofs.Timeline.Instants

/-! # A call alone on a timeline

A timeline with one call polls it at the time of each of its timers, so the call comes to what it
comes to if it is polled at any times. -/

namespace Orchestration

open List

namespace Timeline

variable {α : Type}

/-! ## Instants -/

/-- Calls have no tasks. -/
theorem sweep_taskTurn_call (timer : Option Timer) (slots : List (Slot (Call α) (Ending α)))
    (s : Session) : sweep (Engagement.taskTurn · timer) slots s = (slots, s) := by
  induction slots generalizing s with
  | nil => rfl
  | cons slot slots ih =>
      cases slot with
      | ended r => rw [sweep, ih]
      | waiting e =>
          have hstep : e.taskTurn timer s = ((.waiting e : Slot (Call α) (Ending α)), s) := rfl
          rw [sweep, hstep]
          dsimp only
          rw [ih]

theorem taskTurn_call (slots : List (Slot (Call α) (Ending α))) (s : Session) :
    taskTurn slots s = (slots, s) := by
  have hkept : (taskTurn slots s).1 = slots ∧ (taskTurn slots s).2 = s := by
    refine taskTurn_invariant (P := fun slots' s' => slots' = slots ∧ s' = s) ?_ ⟨rfl, rfl⟩
    rintro timer _ _ ⟨rfl, rfl⟩
    rw [sweep_taskTurn_call]
    exact ⟨rfl, rfl⟩
  exact Prod.ext hkept.1 hkept.2

variable {call rest : Call α} {s s' : Session} {c : Option Context} {ending : Ending α}

/-- The call alone. -/
def alone (call : Call α) (c : Option Context) : List (Slot (Call α) (Ending α)) :=
  [.waiting ⟨call, c, none⟩]

/-- The report on a call that was under way for so long. -/
def reportAt (c : Option Context) (start : Nat) (result : Option (Ending α)) (s : Session) :
    Report (Ending α) := ⟨result, s.now - start, (c.map s.isCancelled).getD false⟩

theorem sweep_ownTurn_of_ended (start : Nat) (h : call.poll s = (.ended ending, s')) :
    sweep (Engagement.ownTurn · start) (alone call c) s =
      ([.ended (reportAt c start (some ending) s')], s') := by
  have hpoll : Activity.ownTurn call s = (.ended ending, s') := h
  simp only [alone, sweep, Engagement.ownTurn, hpoll]
  rfl

theorem sweep_ownTurn_of_waiting (start : Nat) (h : call.poll s = (.waiting rest, s')) :
    sweep (Engagement.ownTurn · start) (alone call c) s = (alone rest c, s') := by
  have hpoll : Activity.ownTurn call s = (.waiting rest, s') := h
  simp only [alone, sweep, Engagement.ownTurn, hpoll]

/-- A call alone that ends when it is polled ends in that instant. -/
theorem instant_alone_of_ended (start : Nat) (h : call.poll s = (.ended ending, s')) :
    instant start (alone call c) s = ([.ended (reportAt c start (some ending) s')], s') := by
  rw [instant, sweep_ownTurn_of_ended start h]
  change takeTurns start 1 [.ended _] s' = _
  rw [takeTurns, taskTurn_call]
  exact if_neg Bool.false_ne_true

/-- Otherwise it waits, and polling it again in that instant changes nothing. -/
theorem instant_alone_of_waiting (start : Nat) (h : call.poll s = (.waiting rest, s')) :
    instant start (alone call c) s = (alone rest c, s') := by
  rw [instant, sweep_ownTurn_of_waiting start h]
  change takeTurns start 1 (alone rest c) s' = _
  rw [takeTurns, taskTurn_call]
  dsimp only
  rw [sweep_ownTurn_of_waiting start (Call.poll_again h)]
  exact if_neg Bool.false_ne_true

/-! ## Settling -/

variable {W : Session → Session → Prop} {I : Session → Prop} {Q : Ending α → Session → Prop}
  {start horizon : Nat}

/-- The clock jumps to the next timer of the call. -/
theorem settle_alone_of_waiting (hnow : s.now < horizon) (h : call.poll s = (.waiting rest, s')) :
    settle start horizon (alone call c) s = settle start horizon (alone rest c)
      (s'.advance (nextTime horizon (alone rest c) s.now)) := by
  rw [settle_of_lt hnow, instant_alone_of_waiting start h]
  exact if_neg Bool.false_ne_true

theorem nextTime_alone_le {t : Timer} (ht : t ∈ rest.nextTimer) {now : Nat} (hnow : now < t.due) :
    nextTime horizon (alone rest c) now ≤ t.due := by
  refine nextTime_le (i := 0) rfl ?_ hnow
  have htimer : t ∈ Activity.timers rest := Option.mem_toList.mpr ht
  exact mem_append_left _ (mem_map_of_mem htimer)

/-- What a call comes to if it is polled at any times, it comes to on a timeline. -/
theorem settle_alone_of_until (c : Option Context) (start : Nat)
    (hW : ∀ (s : Session) (time : Nat), s.now < time → W s (s.advance time))
    (h : call.Until W none I Q s) (hQ : ∀ ending s', Q ending s' → s'.now < horizon) :
    ∃ ending s', Q ending s' ∧
      settle start horizon (alone call c) s = ([reportAt c start (some ending) s'], s') := by
  induction h with
  | @ended call s s' ending hpoll hends =>
      have hnow : s.now < horizon := Call.now_of_poll hpoll ▸ hQ _ _ hends
      refine ⟨ending, s', hends, ?_⟩
      rw [settle_of_lt hnow, instant_alone_of_ended start hpoll]
      rfl
  | @waits call rest s s' hpoll hholds hnext ih =>
      have hstill := Call.now_of_poll hpoll
      by_cases hnow : s.now < horizon
      · rw [settle_alone_of_waiting hnow hpoll]
        have hlt : s'.now < nextTime horizon (alone rest c) s.now := hstill ▸ lt_nextTime ..
        refine ih _ (hW s' _ hlt) hlt (by simp) fun t ht => nextTime_alone_le ht ?_
        exact hstill ▸ Call.now_lt_of_nextTimer hpoll ht
      · obtain ⟨ending, s'', hends, hle⟩ := (Call.Until.waits hpoll hholds hnext).exists_end hW
        have hlt := hQ ending s'' hends
        omega

/-- A call that does not end up to the horizon is dropped then. -/
theorem settle_alone_of_never (c : Option Context) (start : Nat)
    (hW : ∀ (s : Session) (time : Nat), s.now < time → W s (s.advance time))
    (h : call.Until W (some horizon) I (fun _ _ => False) s) (hnow : s.now ≤ horizon) :
    ∃ (rest : Call α) (s' : Session), I s' ∧ s'.now = horizon ∧
      settle start horizon (alone call c) s =
        ([reportAt c start none (rest.drop s')], rest.drop s') := by
  induction h with
  | ended hpoll hends => exact hends.elim
  | @waits call rest s s' hpoll hholds hnext ih =>
      have hstill := Call.now_of_poll hpoll
      rcases Nat.lt_or_eq_of_le hnow with hearly | hat
      · rw [settle_alone_of_waiting hearly hpoll]
        have hlt : s'.now < nextTime horizon (alone rest c) s.now := hstill ▸ lt_nextTime ..
        have hle : nextTime horizon (alone rest c) s.now ≤ horizon := by
          unfold nextTime
          omega
        have hbound : ∀ time ∈ some horizon, nextTime horizon (alone rest c) s.now ≤ time := by
          simpa using hle
        refine ih _ (hW s' _ hlt) hlt hbound (fun t ht => nextTime_alone_le ht ?_) hle
        exact hstill ▸ Call.now_lt_of_nextTimer hpoll ht
      · refine ⟨rest, s', hholds, hstill.trans hat, ?_⟩
        rw [settle, sweep_ownTurn_of_waiting start hpoll]
        exact dif_neg (by omega)

end Timeline

end Orchestration
