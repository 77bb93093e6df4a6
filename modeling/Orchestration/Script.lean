import Orchestration.Agent

/-!
# Scripted agents

A scripted agent plays one step of its script per call and the last one from then on. It enters into
the journal when a call starts, how it concludes, and when it is dropped before that. Before it
concludes, a call may set off detached work, wait, and cancel its context.
-/

namespace Orchestration

/-- What a scripted agent makes of its input. -/
inductive Transform where
  | constant (v : Value)
  | identity
  | tag
  | nodeName
  | callNumber
  | increment
  | double
  | length
  | characters
  | split
  | negate
  | discard
  | harden

namespace Transform

/-- The value that a named agent yields for an input in its call of a given number, under the name
of a node if there is one; none where the input has the wrong kind. -/
def apply (f : Transform) (name : String) (node : Option String) (call : Nat) (input : Value) :
    Option Value :=
  match f, input with
  | constant v, _ => some v
  | identity, v => some v
  | tag, v => some (.text (name ++ "(" ++ v.shown ++ ")"))
  | nodeName, _ => some (.text (node.getD "<none>"))
  | callNumber, _ => some (.int (Int64.ofNat call))
  | increment, .int n => some (.int (n + 1))
  | double, .int n => some (.int (n + n))
  | length, .text s => some (.size (UInt64.ofNat s.utf8ByteSize))
  | length, .list items => some (.size (UInt64.ofNat items.length))
  | characters, .text s => some (.int (Int64.ofNat s.length))
  | split, .text s => some (.list (s.splitOn ","))
  | negate, .bool b => some (.bool !b)
  | discard, _ => some .unit
  | harden, v => some (.brittle v.shown)
  | _, _ => none

end Transform

inductive Conclusion where
  | succeed (f : Transform)
  | fail (node : String) (agent : Option String) (reason : String)
  | failFatally (reason : String)
  | timeOut (node : String) (limit : Duration)
  | fault (f : Fault)

/-- One step of a script: what happens before the conclusion, and the conclusion. -/
structure Step where
  startFault : Option Fault
  watch : Bool
  detach : Option Duration
  delay : Option Duration
  waitCancel : Bool
  cancel : Bool
  conclusion : Conclusion

/-- Under which context the steps of an agent run. Immediate ones only conclude. -/
inductive Setting where
  | immediate
  | secluded
  | shared

namespace Conclusion

def mark : Conclusion → Mark
  | succeed _ => .succeeded
  | fail .. => .failed
  | failFatally _ => .failedFatally
  | timeOut .. => .timedOut
  | fault _ => .faulted

def ending {ι : Kind} (ω : Kind) (name : String) (node : Option String) (call : Nat)
    (input : Datum ι) : Conclusion → Ending (Datum ω)
  | succeed f =>
    match (f.apply name node call input.value).bind (Value.as? ω) with
    | some d => .value d
    | none => .fault .undescribed
  | fail node agent reason => .failure (.execution node (agent.getD name) reason)
  | failFatally reason => .failure (.invalidPlan reason)
  | timeOut node limit => .failure (.timeout node limit)
  | fault f => .fault f

end Conclusion

structure Scene (ι : Kind) where
  who : String
  name : String
  call : Nat
  input : Datum ι

namespace Scene

variable {ι : Kind}

def event (scene : Scene ι) (mark : Mark) : Event := ⟨scene.who, scene.call, mark⟩

def conclude (scene : Scene ι) (ω : Kind) (node : Option String) (c : Conclusion) :
    Call (Datum ω) :=
  .act (.record (scene.event c.mark)) fun _ =>
    .finish (c.ending ω scene.name node scene.call scene.input)

def doIf {α : Type} (wanted : Option Action) (next : Call α) : Call α :=
  match wanted with
  | some action => .act action fun _ => next
  | none => next

def play (scene : Scene ι) (ω : Kind) (c : Context) (step : Step) : Call (Datum ω) :=
  match step.startFault with
  | some fault => .finish (.fault fault)
  | none =>
    let watch := if step.watch then some (.watch c (scene.event .sawCancellation)) else none
    let detach := step.detach.map fun d => .detach d.waitMillis (scene.event .detachedDone)
    let concluded := scene.conclude ω c.node step.conclusion
    let cancelling := doIf (if step.cancel then some (.cancel c) else none) concluded
    let waiting := if step.waitCancel then .await (.cancellation c) cancelling else cancelling
    doIf watch <| doIf detach <| .guarded (scene.event .dropped) <|
      match step.delay with
      | some d => .sleep d.waitMillis waiting
      | none => waiting

end Scene

/-- The agent that plays a script of at least one step, under a label in the journal. -/
def Agent.scripted {ι ω : Kind} (serial : Nat) (name who : String) (setting : Setting)
    (first : Step) (rest : List Step) : Agent ι ω where
  id := .base serial
  name
  start input c := .act (.number serial) fun call =>
    let scene : Scene ι := ⟨who, name, call, input⟩
    let step := (first :: rest)[call]?.getD (rest.getLastD first)
    .act (.record (scene.event (.started input.value))) fun _ =>
      match setting with
      | .immediate => scene.conclude ω none step.conclusion
      | .secluded => .act .isolate fun own => scene.play ω own step
      | .shared => scene.play ω c step

end Orchestration
