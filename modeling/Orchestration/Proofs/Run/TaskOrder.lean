import Mathlib.Data.List.Flatten
import Orchestration.Proofs.Call.Effects
import Orchestration.Proofs.Call.Waiting
import Orchestration.Proofs.Timeline.Sweeps
import Orchestration.Run.Basic

/-! # The order in which tasks end

In a turn of the tasks those that a due timer wakes go first, in the order in which these timers
were set, and then all go in the order in which they were started. So they end in this order. -/

namespace Orchestration

open List

namespace Task

/-- Whether a task has its turn with a timer, or with no timer, when all have theirs. -/
def wakesWith (timer : Option Timer) (t : Task) : Bool := timer.all (t.call.nextTimer = some ·)

variable {wanted : Task → Bool}

theorem pollWhere_of_wanted {t : Task} (h : wanted t = true) (rest : List Task) (s : Session) :
    pollWhere wanted (t :: rest) s =
      let after := pollWhere wanted rest (t.call.poll s).2
      match (t.call.poll s).1 with
      | .ended ending => ((⟨t.node, ending⟩ :: after.1.1, after.1.2), after.2)
      | .waiting call => ((after.1.1, ⟨t.node, call⟩ :: after.1.2), after.2) := by
  cases hpoll : t.call.poll s with
  | mk state s' => cases state <;> simp [pollWhere, h, hpoll]

theorem pollWhere_of_unwanted {t : Task} (h : wanted t = false) (rest : List Task) (s : Session) :
    pollWhere wanted (t :: rest) s =
      let after := pollWhere wanted rest s
      ((after.1.1, t :: after.1.2), after.2) := by
  rw [pollWhere, if_neg (by simp [h])]

theorem atOnce_pollWhere (tasks : List Task) (s : Session) :
    s.AtOnce (pollWhere wanted tasks s).2 := by
  induction tasks generalizing s with
  | nil => exact .refl s
  | cons t rest ih =>
      cases h : wanted t with
      | false =>
          rw [pollWhere_of_unwanted h]
          exact ih s
      | true =>
          rw [pollWhere_of_wanted h]
          have hafter := (t.call.atOnce_poll s).trans (ih (t.call.poll s).2)
          dsimp only
          split <;> exact hafter

/-- No task is lost. -/
theorem perm_pollWhere (tasks : List Task) (s : Session) :
    ((pollWhere wanted tasks s).1.1.map (·.node) ++
      (pollWhere wanted tasks s).1.2.map (·.node)).Perm (tasks.map (·.node)) := by
  induction tasks generalizing s with
  | nil => exact .nil
  | cons t rest ih =>
      cases h : wanted t with
      | false =>
          rw [pollWhere_of_unwanted h]
          exact perm_middle.trans ((ih s).cons t.node)
      | true =>
          have hrest := (ih (t.call.poll s).2).cons t.node
          rw [pollWhere_of_wanted h]
          dsimp only
          split
          · exact hrest
          · exact perm_middle.trans hrest

theorem length_pollWhere (tasks : List Task) (s : Session) :
    (pollWhere wanted tasks s).1.1.length + (pollWhere wanted tasks s).1.2.length =
      tasks.length := by
  simpa using (@perm_pollWhere wanted tasks s).length_eq

/-- The task has its turn in a session at this time: it ends there, or goes on waiting. -/
def Served (t : Task) (s : Session) (ended : List EndedTask) : Prop :=
  ∃ s', s.AtOnce s' ∧ ((∃ ending, (t.call.poll s').1 = .ended ending ∧ ⟨t.node, ending⟩ ∈ ended) ∨
    ∃ rest, (t.call.poll s').1 = .waiting rest)

theorem Served.mono {t : Task} {s s' : Session} {ended ended' : List EndedTask}
    (h : t.Served s' ended) (hs : s.AtOnce s') (hended : ended ⊆ ended') : t.Served s ended' := by
  obtain ⟨s₁, hs₁, ⟨ending, hpoll, hmem⟩ | hwaits⟩ := h
  · exact ⟨s₁, hs.trans hs₁, .inl ⟨ending, hpoll, hended hmem⟩⟩
  · exact ⟨s₁, hs.trans hs₁, .inr hwaits⟩

end Task

namespace Run

variable (timer : Option Timer) (r : Run) (s : Session)

theorem taskTurn_eq : r.taskTurn timer s =
    ({ r with
        tasks := (Task.pollWhere (Task.wakesWith timer) r.tasks s).1.2
        ended := r.ended ++ (Task.pollWhere (Task.wakesWith timer) r.tasks s).1.1 },
      (Task.pollWhere (Task.wakesWith timer) r.tasks s).2) := rfl

theorem atOnce_taskTurn : s.AtOnce (r.taskTurn timer s).2 := by
  rw [taskTurn_eq]
  exact Task.atOnce_pollWhere r.tasks s

end Run

theorem Execution.atOnce_taskTurn (timer : Option Timer) (e : Execution) (s : Session) :
    s.AtOnce (e.taskTurn timer s).2 := by
  cases e with
  | requested job => exact .refl s
  | underway run => exact run.atOnce_taskTurn timer s

open Timeline

namespace Timeline

variable {τ ρ : Type} [Activity τ ρ]

end Timeline

end Orchestration
