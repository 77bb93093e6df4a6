import Orchestration.Plan.Basic
import Orchestration.Run.Values
import Orchestration.Timeline

/-!
# Runs of plans

A run starts every root on its input, hands each output on to the node's consumers, and keeps at
most so many nodes in flight. The nodes are tasks of their own, which take turns with the run: the
tasks do what they can, and then the run observes all endings that are there, in the order in which
they came about. A node that becomes ready by an observation is started at once if there is room,
but it acts in the next turn of the tasks; so it never acts if a failure was there beside the ending
that made it ready. Cancellation is looked at before each observation. The first failure ends the
run: everything in flight is dropped and the run's own context, from which those of the nodes are
derived, is cancelled.
-/

namespace Orchestration

structure Job where
  plan : Plan
  inputs : NodeValues
  /-- How many nodes may be in flight; none stands for any number, and zero counts as one. -/
  maxConcurrency : Option Nat
  context : Context

/-- A node in flight that still works, and what is left of its call. -/
structure Task where
  node : Node
  call : Call (Datum node.output)

structure EndedTask where
  node : Node
  ending : Ending (Datum node.output)

/-- The state of a run between two of its steps. -/
structure Run where
  job : Job
  /-- The context from which those of the nodes are derived. -/
  scope : Context
  /-- Nodes that may start, with their inputs, first come first served. -/
  ready : List (Node × Value)
  /-- Nodes in flight that still work, in the order in which they were started. -/
  tasks : List Task
  /-- Nodes in flight whose endings have not been observed, in the order of these. -/
  ended : List EndedTask
  outputs : NodeValues

abbrev RunResult := Except Failure NodeValues

/-- Polls the tasks that meet a condition, in order: those that end, and those that still work. -/
def Task.pollWhere (wanted : Task → Bool) :
    List Task → Session → (List EndedTask × List Task) × Session
  | [], s => (([], []), s)
  | t :: rest, s =>
    let (state, s) := if wanted t then t.call.poll s else (.waiting t.call, s)
    let ((ended, tasks), s) := pollWhere wanted rest s
    match state with
    | .ended ending => ((⟨t.node, ending⟩ :: ended, tasks), s)
    | .waiting call => ((ended, ⟨t.node, call⟩ :: tasks), s)

namespace Job

/-- Whether one more node may be in flight beside so many. -/
def hasRoom (j : Job) (inFlight : Nat) : Bool :=
  j.maxConcurrency.all (inFlight < max 1 ·)

/-- Each root with its input, or the failure of the first root without one. -/
def rootInputs (j : Job) : Except Failure (List (Node × Value)) :=
  j.plan.roots.mapM fun n =>
    match j.inputs.get? n.id with
    | some v => .ok (n, v)
    | none => .error (n.failure "missing input")

/-- Sets up a run; an empty plan and a missing input end it at once. -/
def begin (j : Job) (s : Session) : Progress Run RunResult × Session :=
  if j.plan.nodes.isEmpty then (.ended (.ok .empty), s)
  else
    let (scope, s) := s.derive j.context
    match j.rootInputs with
    | .error f => (.ended (.error f), s.cancel scope)
    | .ok ready => (.waiting ⟨j, scope, ready, [], [], .empty⟩, s)

end Job

namespace Run

def cancelled : Failure := .ofAgent "" "run cancelled"

/-- Puts ready nodes in flight while there is room beside so many that have ended unobserved. -/
def launch (job : Job) (scope : Context) (ended : Nat) :
    List (Node × Value) → List Task → Session → (List (Node × Value) × List Task) × Session
  | [], tasks, s => (([], tasks), s)
  | (node, input) :: ready, tasks, s =>
    if job.hasRoom (ended + tasks.length) then
      let (c, s) := s.derive scope
      launch job scope ended ready (tasks ++ [⟨node, node.call input (c.atNode node.id)⟩]) s
    else (((node, input) :: ready, tasks), s)

/-- Records an output and makes the node's consumers ready for it. -/
def complete (r : Run) (node : Node) (output : Value) : Run :=
  let next := (r.job.plan.dependents node.id).filterMap r.job.plan.node?
  { r with
    ready := r.ready ++ next.map (·, output)
    outputs := r.outputs.insert node.id output }

/-- Drops what is in flight and cancels the run's context. -/
def halt (r : Run) (s : Session) : Session :=
  (r.tasks.foldl (fun s t => t.call.drop s) s).cancel r.scope

/-- Starts nodes and observes endings, one after another. When all are observed, a run with nothing
in flight has succeeded. -/
def observe : List EndedTask → Run → Session → Progress Run RunResult × Session
  | ended, r, s =>
    let ((ready, tasks), s) := launch r.job r.scope ended.length r.ready r.tasks s
    let r := { r with ready, tasks }
    if s.isCancelled r.scope then (.ended (.error cancelled), r.halt s)
    else match ended with
      | [] => if r.tasks.isEmpty then (.ended (.ok r.outputs), r.halt s) else (.waiting r, s)
      | ⟨node, .value output⟩ :: rest => observe rest (r.complete node output.value) s
      | ⟨_, .failure f⟩ :: _ => (.ended (.error f), r.halt s)
      | ⟨node, .fault _⟩ :: _ => (.ended (.error (node.failure "node task panicked")), r.halt s)

/-- The run's own turn: it observes the endings that are there. -/
def ownTurn (r : Run) (s : Session) : Progress Run RunResult × Session :=
  observe r.ended { r with ended := [] } s

/-- The turn of the task that waits for a timer, or of all tasks. -/
def taskTurn (timer : Option Timer) (r : Run) (s : Session) : Run × Session :=
  let wanted (t : Task) := timer.all (t.call.nextTimer = some ·)
  let ((ended, tasks), s) := Task.pollWhere wanted r.tasks s
  ({ r with tasks, ended := r.ended ++ ended }, s)

end Run

inductive Execution where
  | requested (job : Job)
  | underway (run : Run)

namespace Execution

def continuing : Progress Run RunResult × Session → Progress Execution RunResult × Session
  | (.ended result, s) => (.ended result, s)
  | (.waiting run, s) => (.waiting (underway run), s)

/-- A requested run sets itself up first. -/
def ownTurn : Execution → Session → Progress Execution RunResult × Session
  | requested job, s =>
    match job.begin s with
    | (.ended result, s) => (.ended result, s)
    | (.waiting run, s) => continuing (run.ownTurn s)
  | underway run, s => continuing (run.ownTurn s)

def taskTurn (timer : Option Timer) : Execution → Session → Execution × Session
  | requested job, s => (requested job, s)
  | underway run, s =>
    let (run, s) := run.taskTurn timer s
    (underway run, s)

def hasNews : Execution → Bool
  | requested _ => false
  | underway run => !run.ended.isEmpty

def job : Execution → Job
  | requested job => job
  | underway run => run.job

def drop : Execution → Session → Session
  | requested _, s => s
  | underway run, s => run.halt s

def timers : Execution → List Timer
  | requested _ => []
  | underway run => run.tasks.filterMap (·.call.nextTimer)

end Execution

instance : Activity Execution RunResult where
  ownTurn := Execution.ownTurn
  taskTurn := Execution.taskTurn
  hasNews := Execution.hasNews
  taskLimit e := e.job.plan.nodes.length
  drop := Execution.drop
  timers := Execution.timers

end Orchestration
