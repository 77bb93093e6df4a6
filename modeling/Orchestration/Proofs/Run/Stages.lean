import Mathlib.Data.List.Forall2
import Mathlib.Logic.Relation
import Orchestration.Proofs.Plan.Forest
import Orchestration.Run.Basic

/-! # Stages of a run

A run at the grain of single rounds of its loop and single polls of its tasks, in any order, while
anything may happen to the session meanwhile. The turns that a run takes on a timeline are sequences
of such moves. Nothing is said here about which moves come when. -/

namespace Orchestration

open List Relation

theorem Run.complete_eq (r : Run) (n : Node) (output : Value) :
    r.complete n output =
      { r with
        ready := r.ready ++ (r.job.plan.consumers n.id).map (·, output)
        outputs := r.outputs.insert n.id output } := rfl

/-! ## Moves -/

/-- What the ending of a node's task means for the run. -/
def Node.resultOf {κ : Kind} (n : Node) : Ending (Datum κ) → Except Failure Value
  | .value d => .ok d.value
  | .failure f => .error f
  | .fault _ => .error (n.failure "node task panicked")

def EndedTask.result (e : EndedTask) : Except Failure Value := e.node.resultOf e.ending

/-- What happens to a node in a run. -/
inductive Happening where
  | readied (node : String) (input : Value)
  | started (node : String) (input : Value)
  | completed (node : String) (output : Value)
  | failed (node : String) (failure : Failure)
deriving DecidableEq

/-- Nodes become ready one after another. -/
def allReadied (entries : List (Node × Value)) : List Happening :=
  entries.map fun e => .readied e.1.id e.2

/-- A node completes, and its consumers become ready. -/
def Plan.completion (p : Plan) (n : Node) (output : Value) : List Happening :=
  .completed n.id output :: allReadied ((p.consumers n.id).map (·, output))

/-- What a run has come to. -/
inductive Verdict where
  | goesOn
  | succeeded
  | failed (node : Node) (failure : Failure)
  | cancelled

/-- A run, how it stands, the session, and all that has happened, oldest first. The run of a stage
that is over is the last one. -/
structure Stage where
  run : Run
  verdict : Verdict
  session : Session
  log : List Happening

/-- A round of the loop, a poll of the task at some position, or a change from outside. -/
inductive Move where
  | round
  | poll (position : Nat)
  | meanwhile (change : Session → Session)

namespace Stage

/-- A run that has just been set up. -/
def opening (r : Run) (s : Session) : Stage :=
  ⟨r, .goesOn, s, allReadied r.ready⟩

/-- Starts ready nodes while there is room. -/
def launch (g : Stage) : Stage :=
  let ((ready, tasks), s) :=
    Run.launch g.run.job g.run.scope g.run.ended.length g.run.ready g.run.tasks g.session
  let started := g.run.ready.take (g.run.ready.length - ready.length)
  { g with
    run := { g.run with ready, tasks }
    session := s
    log := g.log ++ started.map fun e => .started e.1.id e.2 }

/-- Looks at the first ending, or sees that nothing is left to do. -/
def observe (g : Stage) : Stage :=
  match g.run.ended with
  | [] => if g.run.tasks.isEmpty then { g with verdict := .succeeded } else g
  | e :: rest =>
    let r := { g.run with ended := rest }
    match e.result with
    | .ok output =>
      { g with
        run := r.complete e.node output
        log := g.log ++ g.run.job.plan.completion e.node output }
    | .error f =>
      { g with run := r, verdict := .failed e.node f, log := g.log ++ [.failed e.node.id f] }

/-- Drops what is in flight if the run is over. -/
def settle (g : Stage) : Stage :=
  match g.verdict with
  | .goesOn => g
  | _ => { g with session := g.run.halt g.session }

/-- One round of the loop: start nodes, look at cancellation, observe one ending. -/
def round (g : Stage) : Stage :=
  let g := g.launch
  if g.session.isCancelled g.run.scope then { g with verdict := .cancelled }.settle
  else g.observe.settle

/-- Polls one task in flight. -/
def poll (g : Stage) (position : Nat) : Stage :=
  match g.run.tasks[position]? with
  | none => g
  | some t =>
    match t.call.poll g.session with
    | (.ended ending, s) =>
      { g with
        run := { g.run with
          tasks := g.run.tasks.eraseIdx position
          ended := g.run.ended ++ [⟨t.node, ending⟩] }
        session := s }
    | (.waiting call, s) =>
      { g with
        run := { g.run with tasks := g.run.tasks.set position ⟨t.node, call⟩ }
        session := s }

/-- A move of a run that goes on; a run that is over stays as it is. -/
def after (g : Stage) (m : Move) : Stage :=
  match g.verdict, m with
  | .goesOn, .round => g.round
  | .goesOn, .poll position => g.poll position
  | .goesOn, .meanwhile change => { g with session := change g.session }
  | _, _ => g

/-- The stages along a schedule. -/
def along (g : Stage) (schedule : Nat → Move) : Nat → Stage
  | 0 => g
  | n + 1 => (g.along schedule n).after (schedule n)

/-- What the run has come to, if it is over. -/
def result? (g : Stage) : Option RunResult :=
  match g.verdict with
  | .goesOn => none
  | .succeeded => some (.ok g.run.outputs)
  | .failed _ f => some (.error f)
  | .cancelled => some (.error Run.cancelled)

/-- The stage as the run itself reports it. -/
def progress (g : Stage) : Progress Run RunResult × Session :=
  match g.result? with
  | none => (.waiting g.run, g.session)
  | some result => (.ended result, g.session)

theorem observe_of_nil {g : Stage} (hended : g.run.ended = []) :
    g.observe = if g.run.tasks.isEmpty then { g with verdict := .succeeded } else g := by
  unfold observe
  rw [hended]

theorem observe_of_ok {g : Stage} {e : EndedTask} {rest : List EndedTask} {output : Value}
    (hended : g.run.ended = e :: rest) (hresult : e.result = .ok output) :
    g.observe = { g with
      run := { g.run with ended := rest }.complete e.node output
      log := g.log ++ g.run.job.plan.completion e.node output } := by
  unfold observe
  rw [hended]
  dsimp only
  rw [hresult]

theorem observe_of_error {g : Stage} {e : EndedTask} {rest : List EndedTask} {f : Failure}
    (hended : g.run.ended = e :: rest) (hresult : e.result = .error f) :
    g.observe = { g with
      run := { g.run with ended := rest }
      verdict := .failed e.node f
      log := g.log ++ [.failed e.node.id f] } := by
  unfold observe
  rw [hended]
  dsimp only
  rw [hresult]

theorem round_eq (g : Stage) :
    g.round = if g.launch.session.isCancelled g.launch.run.scope then
      { g.launch with verdict := .cancelled }.settle else g.launch.observe.settle := rfl

theorem poll_of_none {g : Stage} {i : Nat} (ht : g.run.tasks[i]? = none) : g.poll i = g := by
  unfold poll
  rw [ht]

theorem poll_of_waiting {g : Stage} {i : Nat} {t : Task} {call : Call (Datum t.node.output)}
    {s : Session} (ht : g.run.tasks[i]? = some t)
    (hpoll : t.call.poll g.session = (.waiting call, s)) :
    g.poll i = { g with
      run := { g.run with tasks := g.run.tasks.set i ⟨t.node, call⟩ }
      session := s } := by
  unfold poll
  rw [ht]
  dsimp only
  rw [hpoll]

theorem poll_of_ended {g : Stage} {i : Nat} {t : Task} {ending : Ending (Datum t.node.output)}
    {s : Session} (ht : g.run.tasks[i]? = some t)
    (hpoll : t.call.poll g.session = (.ended ending, s)) :
    g.poll i = { g with
      run := { g.run with
        tasks := g.run.tasks.eraseIdx i
        ended := g.run.ended ++ [⟨t.node, ending⟩] }
      session := s } := by
  unfold poll
  rw [ht]
  dsimp only
  rw [hpoll]

theorem after_of_over {g : Stage} (h : g.verdict ≠ .goesOn) (m : Move) : g.after m = g := by
  unfold after
  split <;> simp_all

/-- Once a run is over it stays as it is. -/
theorem along_of_over {g : Stage} {schedule : Nat → Move} {m n : Nat} (hmn : m ≤ n)
    (h : (g.along schedule m).verdict ≠ .goesOn) : g.along schedule n = g.along schedule m := by
  induction hmn with
  | refl => rfl
  | step _ ih => rw [along, ih, after_of_over h]

theorem result?_eq_none_iff (g : Stage) : g.result? = none ↔ g.verdict = .goesOn := by
  unfold result?
  cases g.verdict <;> simp

end Stage

/-- The result of a job after so many moves of a schedule, if there is one by then. -/
def Job.result? (j : Job) (s : Session) (schedule : Nat → Move) (n : Nat) : Option RunResult :=
  match j.begin s with
  | (.ended result, _) => some result
  | (.waiting r, s) => ((Stage.opening r s).along schedule n).result?

end Orchestration
