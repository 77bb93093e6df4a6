import Orchestration.Context
import Orchestration.Entries
import Orchestration.Value

/-!
# Sessions

What the calls of one session share: a clock in milliseconds with its timers, the registry of
tokens, the number of calls that each agent has had, and a journal of what happened when. Code takes
no time; the clock only moves when everything waits.
-/

namespace Orchestration

/-- What a journal entry says about a call. -/
inductive Mark where
  | started (input : Value)
  | succeeded
  | failed
  | failedFatally
  | timedOut
  | faulted
  | dropped
  | sawCancellation
  | detachedDone
deriving DecidableEq

structure Event where
  who : String
  call : Nat
  mark : Mark
deriving DecidableEq

structure Entry where
  time : Nat
  event : Event
deriving DecidableEq

/-- When something is due, and how many timers were set before. Timers that are due at the same time
go off in the order in which they were set. -/
structure Timer where
  due : Nat
  number : Nat
deriving DecidableEq

def Timer.first (t u : Timer) : Timer :=
  if t.due < u.due ∨ t.due = u.due ∧ t.number ≤ u.number then t else u

/-- The state that all calls of a session share. -/
structure Session where
  now : Nat
  /-- How many timers were set so far. -/
  timers : Nat
  registry : Registry
  /-- The calls so far of each agent that was called. -/
  calls : Entries Nat Nat
  /-- What happened so far, newest first. -/
  journal : List Entry
  /-- What is entered once a token is cancelled. -/
  watches : List (Token × Event)
  /-- What is entered at a later time, whatever happens until then. -/
  alarms : List Entry

inductive Action where
  | timer (millis : Nat)
  | number (agent : Nat)
  | record (event : Event)
  | inspect (context : Context)
  | cancel (context : Context)
  | derive (context : Context)
  | isolate
  | watch (context : Context) (event : Event)
  | detach (millis : Nat) (event : Event)

abbrev Action.Answer : Action → Type
  | timer _ => Timer
  | number _ => Nat
  | inspect _ => Bool
  | derive _ | isolate => Context
  | record _ | cancel _ | watch .. | detach .. => Unit

namespace Session

def initial : Session := ⟨0, 0, .empty, [], [], [], []⟩

def record (s : Session) (event : Event) : Session :=
  { s with journal := ⟨s.now, event⟩ :: s.journal }

def isCancelled (s : Session) (c : Context) : Bool := s.registry.isCancelled c.token

def callsOf (s : Session) (agent : Nat) : Nat := (s.calls.lookup agent).getD 0

def countCall (s : Session) (agent : Nat) : Session :=
  { s with calls := s.calls.set agent (s.callsOf agent + 1) }

theorem callsOf_countCall (s : Session) (agent other : Nat) :
    (s.countCall agent).callsOf other =
      if other = agent then s.callsOf agent + 1 else s.callsOf other := by
  unfold countCall callsOf
  rw [Entries.lookup_set]
  by_cases h : other = agent <;> simp [h]

/-- Cancels a token and enters the events that waited for it. -/
def cancel (s : Session) (c : Context) : Session :=
  let registry := s.registry.cancel c.token
  let (due, rest) := s.watches.partition fun w => registry.isCancelled w.1
  due.foldl (fun s w => s.record w.2) { s with registry, watches := rest }

/-- Enters an event as soon as a context is cancelled. -/
def watch (s : Session) (c : Context) (event : Event) : Session :=
  if s.isCancelled c then s.record event
  else { s with watches := (c.token, event) :: s.watches }

/-- Moves the clock to a time that is not past and enters what was due until then. -/
def advance (s : Session) (time : Nat) : Session :=
  let (due, rest) := s.alarms.partition (·.time ≤ time)
  { s with now := time, journal := due ++ s.journal, alarms := rest }

def derive (s : Session) (c : Context) : Context × Session :=
  let (c, registry) := s.registry.child c
  (c, { s with registry })

/-- A context that nothing else knows of. -/
def isolate (s : Session) : Context × Session :=
  let (c, registry) := s.registry.fresh
  (c, { s with registry })

def setTimer (s : Session) (millis : Nat) : Timer × Session :=
  (⟨s.now + millis, s.timers⟩, { s with timers := s.timers + 1 })

def perform (s : Session) : (a : Action) → a.Answer × Session
  | .timer millis => s.setTimer millis
  | .number agent => (s.callsOf agent, s.countCall agent)
  | .record event => ((), s.record event)
  | .inspect c => (s.isCancelled c, s)
  | .cancel c => ((), s.cancel c)
  | .derive c => s.derive c
  | .isolate => s.isolate
  | .watch c event => ((), s.watch c event)
  | .detach millis event => ((), { s with alarms := ⟨s.now + millis, event⟩ :: s.alarms })

end Session

end Orchestration
