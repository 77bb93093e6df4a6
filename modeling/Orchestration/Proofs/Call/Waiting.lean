import Orchestration.Call

/-! # Calls that wait

A poll that does not end a call leaves it waiting, and another poll changes nothing until one of its
waits is over. The next timer of a call that waits is the first of those that it waits for. Some
calls never wait. -/

namespace Orchestration

namespace Timer

theorem first_eq_or (t u : Timer) : t.first u = t ∨ t.first u = u := by
  unfold first
  split <;> simp

theorem first_due (t u : Timer) : (t.first u).due = min t.due u.due := by
  unfold first
  split <;> omega

end Timer

namespace Call

variable {α : Type}

/-- What the call waits for, if it waits. -/
def wakes : Call α → List Wake
  | await wake _ => [wake]
  | guarded _ body => body.wakes
  | within deadline _ _ body => .timer deadline :: body.wakes
  | andThen body _ => body.wakes
  | finish _ | act .. => []

/-- The call can do nothing before a wait is over. -/
def Waits : Call α → Prop
  | await .. => True
  | guarded _ body => body.Waits
  | within _ _ _ body => body.Waits
  | andThen body _ => body.Waits
  | finish _ | act .. => False

/-- As long as none of its waits is over, a poll changes nothing. -/
theorem Waits.poll_eq {call : Call α} (h : call.Waits) {s : Session}
    (hwakes : ∀ wake ∈ call.wakes, s.holds wake = false) : call.poll s = (.waiting call, s) := by
  induction call with
  | finish | act => exact h.elim
  | await wake next => simp [poll, hwakes wake (by simp [wakes])]
  | guarded onDrop body ih => rw [poll, ih h hwakes]
  | within deadline scope late body ih =>
      have hdeadline : ¬ deadline.due ≤ s.now := by
        simpa [Session.holds] using hwakes (.timer deadline) (by simp [wakes])
      rw [poll, ih h fun wake hwake => hwakes wake (by simp [wakes, hwake])]
      exact if_neg hdeadline
  | andThen body next ih => rw [poll, ih h hwakes]

/-- What a poll leaves waits, and none of its waits is over. -/
theorem waits_of_poll {call rest : Call α} {s s' : Session}
    (h : call.poll s = (.waiting rest, s')) :
    rest.Waits ∧ ∀ wake ∈ rest.wakes, s'.holds wake = false := by
  induction call generalizing s rest s' with
  | finish ending => cases h
  | act action next ih => exact ih _ h
  | await wake next ih =>
      rw [poll] at h
      split at h
      · exact ih h
      · rename_i hholds
        cases h
        exact ⟨trivial, by simpa [wakes] using hholds⟩
  | guarded onDrop body ih =>
      rw [poll] at h
      split at h
      · cases h
      · rename_i hbody
        cases h
        obtain ⟨hwaits, hwakes⟩ := ih hbody
        exact ⟨hwaits, hwakes⟩
  | within deadline scope late body ih =>
      rw [poll] at h
      split at h
      · cases h
      · rename_i hbody
        split at h
        · cases h
        · rename_i hdeadline
          cases h
          obtain ⟨hwaits, hwakes⟩ := ih hbody
          exact ⟨hwaits, by simpa [wakes, Session.holds] using ⟨by omega, hwakes⟩⟩
  | andThen body next ih ihnext =>
      rw [poll] at h
      split at h
      · exact ihnext _ h
      · rename_i hbody
        cases h
        obtain ⟨hwaits, hwakes⟩ := ih hbody
        exact ⟨hwaits, hwakes⟩

/-- Another poll in the same session changes nothing. -/
theorem poll_again {call rest : Call α} {s s' : Session} (h : call.poll s = (.waiting rest, s')) :
    rest.poll s' = (.waiting rest, s') :=
  have ⟨hwaits, hwakes⟩ := waits_of_poll h
  hwaits.poll_eq hwakes

/-! ## The next timer -/

theorem mem_wakes_of_nextTimer {call : Call α} {t : Timer} (h : call.nextTimer = some t) :
    .timer t ∈ call.wakes := by
  induction call generalizing t with
  | finish | act => cases h
  | await wake next =>
      cases wake with
      | timer u => simpa [nextTimer, wakes, eq_comm] using h
      | cancellation c => cases h
  | guarded onDrop body ih => exact ih h
  | within deadline scope late body ih =>
      cases hbody : body.nextTimer with
      | none => simp_all [nextTimer, wakes]
      | some u =>
          obtain rfl : u.first deadline = t := by simpa [nextTimer, hbody] using h
          rcases u.first_eq_or deadline with hfirst | hfirst
          · simpa [wakes, hfirst] using .inr (ih hbody)
          · simp [wakes, hfirst]
  | andThen body next ih => exact ih h

/-- The next timer of what a poll leaves is not due yet. -/
theorem now_lt_of_nextTimer {call rest : Call α} {s s' : Session} {t : Timer}
    (h : call.poll s = (.waiting rest, s')) (ht : rest.nextTimer = some t) : s'.now < t.due := by
  have hholds := (waits_of_poll h).2 _ (mem_wakes_of_nextTimer ht)
  simpa [Session.holds] using hholds

/-- A poll is not late for work with a deadline if it is not late for the work and the deadline. -/
theorem prompt_within_iff {deadline : Timer} {scope : Context} {late : Ending α} {body : Call α}
    {time : Nat} :
    (∀ t ∈ (within deadline scope late body).nextTimer, time ≤ t.due) ↔
      time ≤ deadline.due ∧ ∀ t ∈ body.nextTimer, time ≤ t.due := by
  cases hbody : body.nextTimer with
  | none => simp [nextTimer, hbody]
  | some t =>
      have hfirst : time ≤ (t.first deadline).due ↔ time ≤ t.due ∧ time ≤ deadline.due := by
        rw [Timer.first_due]
        exact Nat.le_min
      simpa [nextTimer, hbody, and_comm] using hfirst

/-! ## Calls that never wait -/

/-- The call never suspends: it does not wait for a timer, and any poll ends it. -/
structure Immediate (call : Call α) : Prop where
  untimed : call.nextTimer = none
  ends : ∀ s, ∃ ending s', call.poll s = (.ended ending, s')

theorem immediate_finish (ending : Ending α) : (finish ending).Immediate :=
  ⟨rfl, fun s => ⟨ending, s, rfl⟩⟩

theorem immediate_act {action : Action} {next : action.Answer → Call α}
    (h : ∀ answer, (next answer).Immediate) : (act action next).Immediate :=
  ⟨rfl, fun s => (h (s.perform action).1).ends _⟩

theorem Immediate.andThen {body : Call α} {next : Ending α → Call α} (h : body.Immediate)
    (hnext : ∀ ending, (next ending).Immediate) : (body.andThen next).Immediate := by
  refine ⟨h.untimed, fun s => ?_⟩
  obtain ⟨ending, s', hbody⟩ := h.ends s
  rw [poll, hbody]
  exact (hnext ending).ends s'

end Call

end Orchestration
