import Orchestration.Failure
import Orchestration.Session

/-!
# Calls

A call is a piece of work in progress: finished, about to act, or waiting for a timer or for a
cancellation. Calls are composed by `andThen`, bounded by `within` and watched over by `guarded`.
Polling a call carries out all that it can do at the present time. What is left of a call that still
waits can be polled again later, or dropped.
-/

namespace Orchestration

/-- How a call ends: with a value, with a failure, or with a fault that nothing has captured yet. -/
inductive Ending (α : Type) where
  | value (v : α)
  | failure (f : Failure)
  | fault (f : Fault)
deriving DecidableEq

inductive Wake where
  | timer (t : Timer)
  | cancellation (context : Context)

/-- A piece of work that ends with an `α`, unless it fails. -/
inductive Call (α : Type) where
  | finish (ending : Ending α)
  | act (action : Action) (next : action.Answer → Call α)
  | await (wake : Wake) (next : Call α)
  /-- The work, and what is recorded if it is dropped before it ends. -/
  | guarded (onDrop : Event) (body : Call α)
  /-- The work under a context of its own, and the ending that replaces it at the deadline. -/
  | within (deadline : Timer) (scope : Context) (late : Ending α) (body : Call α)
  | andThen (body : Call α) (next : Ending α → Call α)

/-- The state of some work after it was polled. -/
inductive Progress (τ ρ : Type) where
  | waiting (rest : τ)
  | ended (result : ρ)

def Session.holds (s : Session) : Wake → Bool
  | .timer t => t.due ≤ s.now
  | .cancellation c => s.isCancelled c

namespace Call

variable {α : Type}

/-- Continues after so many milliseconds; none at all are no wait. -/
def sleep (millis : Nat) (next : Call α) : Call α :=
  act (.timer millis) fun t => await (.timer t) next

/-- The work that a dropped call leaves behind: records, innermost first. -/
def drop : Call α → Session → Session
  | guarded onDrop body, s => (body.drop s).record onDrop
  | within _ _ _ body, s => body.drop s
  | andThen body _, s => body.drop s
  | finish _, s | act .., s | await .., s => s

/-- The first timer at which a waiting call can go on by itself. -/
def nextTimer : Call α → Option Timer
  | await (.timer t) _ => some t
  | guarded _ body => body.nextTimer
  | within deadline _ _ body => some (match body.nextTimer with
    | some t => t.first deadline
    | none => deadline)
  | andThen body _ => body.nextTimer
  | _ => none

/-- Carries out all that can be done now. A body that ends at its deadline has kept it. -/
def poll : Call α → Session → Progress (Call α) (Ending α) × Session
  | finish ending, s => (.ended ending, s)
  | act action next, s =>
    let (answer, s) := s.perform action
    (next answer).poll s
  | await wake next, s => if s.holds wake then next.poll s else (.waiting (await wake next), s)
  | guarded onDrop body, s =>
    match body.poll s with
    | (.ended ending, s) => (.ended ending, s)
    | (.waiting rest, s) => (.waiting (guarded onDrop rest), s)
  | within deadline scope late body, s =>
    match body.poll s with
    | (.ended ending, s) => (.ended ending, s)
    | (.waiting rest, s) =>
      if deadline.due ≤ s.now then (.ended late, (rest.drop s).cancel scope)
      else (.waiting (within deadline scope late rest), s)
  | andThen body next, s =>
    match body.poll s with
    | (.ended ending, s) => (next ending).poll s
    | (.waiting rest, s) => (.waiting (andThen rest next), s)

end Call

end Orchestration
