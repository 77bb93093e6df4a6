import Orchestration.Call

/-!
# Engagements on a timeline

Several engagements run side by side on the clock of a session. At each instant the work of each
takes its own turn, in order; then the contexts are cancelled that are to be cancelled from outside;
then the tasks of all work and the work itself take turns until the tasks only wait, and the clock
jumps to the next time at which something can go on. Tasks whose timers are due go on in the order
in which these were set, all others after them in the order in which they were started. When the
common patience is exhausted, work that does not end in its own turn is dropped.
-/

namespace Orchestration

/-- Work that may have tasks of its own, with which it takes turns. -/
class Activity (τ : Type) (ρ : outParam Type) where
  /-- What the work does of itself. -/
  ownTurn : τ → Session → Progress τ ρ × Session
  /-- Lets the tasks that wait for a timer do what they can, or all tasks. -/
  taskTurn : Option Timer → τ → Session → τ × Session
  /-- Whether tasks have ended since its own turn. -/
  hasNews : τ → Bool
  /-- How many tasks may end at most. -/
  taskLimit : τ → Nat
  drop : τ → Session → Session
  /-- The timers at which it or its tasks can go on next. -/
  timers : τ → List Timer

/-- All that a call does, it does itself. -/
instance {α : Type} : Activity (Call α) (Ending α) where
  ownTurn := Call.poll
  taskTurn _ call s := (call, s)
  hasNews _ := false
  taskLimit _ := 0
  drop := Call.drop
  timers call := call.nextTimer.toList

/-- Some work, the context it was given, and when that context is cancelled from outside. -/
structure Engagement (τ : Type) where
  work : τ
  context : Option Context
  cancelAt : Option Nat

/-- What became of an engagement: its result unless it was dropped, the time it took, and whether
its context was cancelled in the end. -/
structure Report (ρ : Type) where
  result : Option ρ
  elapsed : Nat
  cancelled : Bool

abbrev Slot (τ ρ : Type) := Progress (Engagement τ) (Report ρ)

namespace Engagement

variable {τ ρ : Type} [Activity τ ρ]

def report (e : Engagement τ) (start : Nat) (result : Option ρ) (s : Session) : Report ρ :=
  ⟨result, s.now - start, (e.context.map s.isCancelled).getD false⟩

def ownTurn (e : Engagement τ) (start : Nat) (s : Session) : Slot τ ρ × Session :=
  match Activity.ownTurn e.work s with
  | (.ended result, s) => (.ended (e.report start (some result) s), s)
  | (.waiting work, s) => (.waiting { e with work }, s)

def taskTurn (e : Engagement τ) (timer : Option Timer) (s : Session) : Slot τ ρ × Session :=
  let (work, s) := Activity.taskTurn timer e.work s
  (.waiting { e with work }, s)

def cancelDue (e : Engagement τ) (s : Session) : Slot τ ρ × Session :=
  match e.cancelAt, e.context with
  | some t, some c => if t ≤ s.now then (.waiting { e with cancelAt := none }, s.cancel c)
    else (.waiting e, s)
  | _, _ => (.waiting e, s)

def giveUp (e : Engagement τ) (start : Nat) (s : Session) : Slot τ ρ × Session :=
  let s := Activity.drop e.work s
  (.ended (e.report start none s), s)

def times (e : Engagement τ) : List Nat :=
  (Activity.timers e.work).map (·.due) ++ e.cancelAt.toList

end Engagement

/-- What is special about the context of an engagement. -/
structure Occasion where
  node : Option String
  cancelled : Bool
  cancelAfter : Option Nat

namespace Timeline

variable {τ ρ : Type} [Activity τ ρ]

/-- Arranges work under a new context, of which nobody else knows unless there is an occasion. -/
def arrange (work : Context → τ) (occasion : Option Occasion) (s : Session) :
    Engagement τ × Session :=
  let (c, s) := s.isolate
  match occasion with
  | none => (⟨work c, none, none⟩, s)
  | some o =>
    let s := if o.cancelled then s.cancel c else s
    let (c, s) := match o.node with
      | some node =>
        let (c, s) := s.derive c
        (c.atNode node, s)
      | none => (c, s)
    (⟨work c, some c, o.cancelAfter.map (s.now + ·)⟩, s)

/-- Takes a step of every engagement that has not ended, in order. -/
def sweep (step : Engagement τ → Session → Slot τ ρ × Session) :
    List (Slot τ ρ) → Session → List (Slot τ ρ) × Session
  | [], s => ([], s)
  | .ended r :: rest, s =>
    let (rest, s) := sweep step rest s
    (.ended r :: rest, s)
  | .waiting e :: rest, s =>
    let (slot, s) := step e s
    let (rest, s) := sweep step rest s
    (slot :: rest, s)

def underway (slots : List (Slot τ ρ)) : List (Engagement τ) :=
  slots.filterMap fun
    | .waiting e => some e
    | .ended _ => none

def reports (slots : List (Slot τ ρ)) : List (Report ρ) :=
  slots.filterMap fun
    | .ended r => some r
    | .waiting _ => none

/-- The timers that are due, in the order in which they were set. -/
def dueTimers (slots : List (Slot τ ρ)) (s : Session) : List Timer :=
  let timers := (underway slots).flatMap fun e => Activity.timers e.work
  (timers.filter (·.due ≤ s.now)).mergeSort (·.number ≤ ·.number)

/-- Lets all tasks do what they can, those whose timers are due first. -/
def taskTurn (slots : List (Slot τ ρ)) (s : Session) : List (Slot τ ρ) × Session :=
  let (slots, s) := (dueTimers slots s).foldl
    (fun (slots, s) timer => sweep (·.taskTurn (some timer)) slots s) (slots, s)
  sweep (·.taskTurn none) slots s

/-- Tasks and work take turns until no task has ended. -/
def takeTurns (start : Nat) : (fuel : Nat) → List (Slot τ ρ) → Session →
    List (Slot τ ρ) × Session
  | 0, slots, s => (slots, s)
  | fuel + 1, slots, s =>
    let (slots, s) := taskTurn slots s
    let busy := (underway slots).any fun e => Activity.hasNews e.work
    let (slots, s) := sweep (·.ownTurn start) slots s
    if busy then takeTurns start fuel slots s else (slots, s)

/-- Turns enough for one instant, since a task ends in each but the last. -/
def turnLimit (slots : List (Slot τ ρ)) : Nat :=
  (underway slots).foldl (fun n e => n + Activity.taskLimit e.work) 1

/-- Takes turns and jumps until all engagements have ended or the horizon is reached. -/
def settle (start horizon : Nat) (slots : List (Slot τ ρ)) (s : Session) :
    List (Report ρ) × Session :=
  let (slots, s') := sweep (·.ownTurn start) slots s
  if _h : s.now < horizon then
    let (slots, s') := sweep Engagement.cancelDue slots s'
    let (slots, s') := takeTurns start (turnLimit slots) slots s'
    if (underway slots).isEmpty then (reports slots, s')
    else
      let next := ((underway slots).flatMap Engagement.times).min?.getD horizon
      settle start horizon slots (s'.advance (max (s.now + 1) (min horizon next)))
  else
    let (slots, s') := sweep (·.giveUp start) slots s'
    (reports slots, s')
termination_by horizon - s.now
decreasing_by
  simp only [Session.advance]
  omega

def arrangeAll : List ((Context → τ) × Option Occasion) → Session → List (Engagement τ) × Session
  | [], s => ([], s)
  | (work, occasion) :: rest, s =>
    let (e, s) := arrange work occasion s
    let (es, s) := arrangeAll rest s
    (e :: es, s)

/-- Carries out engagements side by side for so many milliseconds at most. -/
def together (patience : Nat) (work : List ((Context → τ) × Option Occasion)) (s : Session) :
    List (Report ρ) × Session :=
  let (es, s) := arrangeAll work s
  settle s.now (s.now + patience) (es.map .waiting) s

/-- Carries out engagements one after another, each for so many milliseconds at most. -/
def inTurn (patience : Nat) :
    List ((Context → τ) × Option Occasion) → Session → List (Report ρ) × Session
  | [], s => ([], s)
  | w :: rest, s =>
    let (first, s) := together patience [w] s
    let (others, s) := inTurn patience rest s
    (first ++ others, s)

/-- The journal, oldest entry first, after so many more milliseconds in which only work that was set
off before goes on. What is due at their end comes too late. -/
def finalJournal (patience : Nat) (s : Session) : List Entry :=
  (s.alarms.filter (·.time < s.now + patience) ++ s.journal).reverse

end Timeline

end Orchestration
