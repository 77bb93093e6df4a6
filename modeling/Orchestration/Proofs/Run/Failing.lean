import Mathlib
import Orchestration.Policy.Retry
import Orchestration.Proofs.Run.Contexts
import Orchestration.Proofs.Run.TaskOrder
import Orchestration.Proofs.Run.Turns
import Orchestration.Script

/-! # Runs that fail

The first failure ends a run at once: it is the result, what is in flight is dropped, every context
that was handed out is cancelled, and no node that the failed one leads to is ever started. -/

namespace Orchestration

open List Relation

namespace Stage

/-! ## What the failed node leads to -/

namespace Accounts

variable {j : Job} {g : Stage}

end Accounts

variable {g : Stage} {schedule : Nat → Move}

end Stage

/-! ## Several failures in one instant -/

/-- Of the endings that are there, the first that is a failure is the result. -/
theorem Run.ownTurn_of_first_failure {earlier later : List EndedTask} {e : EndedTask} {f : Failure}
    (hearlier : ∀ o ∈ earlier, ∃ v, o.result = .ok v) (hfailed : e.result = .error f) {r : Run}
    (hended : r.ended = earlier ++ e :: later) {s : Session}
    (huncancelled : s.isCancelled r.scope = false) :
    (r.ownTurn s).1 = .ended (.error f) := by
  rw [ownTurn, hended]
  clear hended
  induction earlier generalizing r s with
  | nil =>
      let g : Stage := ⟨{ r with ended := e :: later }, .goesOn, s, []⟩
      rw [nil_append, Stage.observe_eq g (e :: later) rfl, Stage.launch_isCancelled, huncancelled,
        if_neg Bool.false_ne_true]
      simp only [hfailed]
  | cons o earlier ih =>
      obtain ⟨v, hv⟩ := hearlier o mem_cons_self
      let g : Stage := ⟨{ r with ended := o :: (earlier ++ e :: later) }, .goesOn, s, []⟩
      rw [cons_append, Stage.observe_eq g (o :: (earlier ++ e :: later)) rfl,
        Stage.launch_isCancelled, huncancelled, if_neg Bool.false_ne_true]
      simp only [hv]
      refine ih (r := { g.launch.run with ended := [] }.complete o.node v)
        (fun o' ho' => hearlier o' (mem_cons_of_mem _ ho')) ?_
      rw [Stage.launch_isCancelled]
      simpa [Run.complete_eq] using huncancelled

/-! ## Missing inputs -/

namespace Job

variable {j : Job}

theorem mapM_rootInput_of_find? {roots : List Node} {n : Node}
    (h : roots.find? (fun n => (j.inputs.get? n.id).isNone) = some n) :
    roots.mapM j.rootInput = .error (n.failure "missing input") := by
  induction roots with
  | nil => cases h
  | cons m roots ih =>
      rw [mapM_cons]
      cases hm : j.inputs.get? m.id with
      | none =>
          obtain rfl : m = n := by simpa [hm] using h
          simp [rootInput, hm, bind, Except.bind]
      | some v =>
          rw [find?_cons_of_neg (by simp [hm])] at h
          simp [rootInput, hm, ih h, bind, Except.bind]

end Job

/-! ## Two failures at the same time -/

/-- A step that fails after so many milliseconds. -/
def Step.failing (millis : UInt64) (reason : String) : Step where
  startFault := none
  watch := false
  detach := none
  delay := some (.ofMillis millis)
  waitCancel := false
  cancel := false
  conclusion := .fail "" none reason

end Orchestration
