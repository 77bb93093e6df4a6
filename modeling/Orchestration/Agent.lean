import Orchestration.Call
import Orchestration.Text.Quoted

/-!
# Agents

An agent has an identity, a name, and code that starts a call on an input of its kind. Executing an
agent puts a boundary around that call: a fault inside ends it with a failure under the agent's
name, so no execution ends with a fault.
-/

namespace Orchestration

/-- The identity of an agent is how it was made. Copies share it; everything made from an agent has
another one. -/
inductive AgentId where
  | base (serial : Nat)
  | renamed (of : AgentId)
  | retrying (of : AgentId)
  | timingOut (of : AgentId)
  | orElse (primary fallback : AgentId)
deriving DecidableEq

/-- A named piece of work from data of kind `ι` to data of kind `ω`. -/
structure Agent (ι ω : Kind) where
  id : AgentId
  name : String
  start : Datum ι → Context → Call (Datum ω)

/-- Ends a call that faulted with a failure of the named agent. -/
def captureFault {α : Type} (name : String) : Ending α → Call α
  | .fault f => .finish (.failure (.ofAgent name ("panicked: " ++ f.message)))
  | ending => .finish ending

/-- Hands a further copy of a datum to a call, which faults where copying does. -/
def withCopy {κ : Kind} {α : Type} (d : Datum κ) (earlier : Nat) (next : Datum κ → Call α) :
    Call α :=
  match d.copy earlier with
  | .ok copy => next copy
  | .error f => .finish (.fault f)

section WithCopy

variable {κ : Kind} {α : Type} {d : Datum κ} {earlier : Nat}

theorem withCopy_of_copies (h : ∀ f, d.copy earlier ≠ .error f) (next : Datum κ → Call α) :
    withCopy d earlier next = next d := by
  unfold withCopy
  cases hcopy : d.copy earlier with
  | error f => exact absurd hcopy (h f)
  | ok copy => rw [Datum.eq_of_copy hcopy]

theorem withCopy_of_error {f : Fault} (h : d.copy earlier = .error f) (next : Datum κ → Call α) :
    withCopy d earlier next = .finish (.fault f) := by
  unfold withCopy
  rw [h]

end WithCopy

namespace Agent

variable {ι ω : Kind}

/-- The agent's work behind its fault boundary. -/
def execute (a : Agent ι ω) (input : Datum ι) (c : Context) : Call (Datum ω) :=
  (a.start input c).andThen (captureFault a.name)

def renamed (a : Agent ι ω) (name : String) : Agent ι ω := { a with id := .renamed a.id, name }

/-- An agent whose work ends at once, depending on the input and the number of earlier calls. -/
def ofFunction (serial : Nat) (name : String) (f : Nat → Datum ι → Ending (Datum ω)) :
    Agent ι ω where
  id := .base serial
  name
  start input _ := .act (.number serial) fun n => .finish (f n input)

/-- An agent whose work ends at once with a datum or with an error of a kind of its own, which is
rendered as the reason of the failure. Both the work and the rendering may fault. -/
def ofFallible {ε : Type} (serial : Nat) (name : String)
    (f : Nat → Datum ι → Except Fault (Except ε (Datum ω))) (render : ε → Except Fault String) :
    Agent ι ω :=
  .ofFunction serial name fun n input =>
    match f n input with
    | .error fault => .fault fault
    | .ok (.ok d) => .value d
    | .ok (.error e) =>
      match render e with
      | .error fault => .fault fault
      | .ok reason => .failure (.ofAgent name reason)

/-- The agent that yields a copy of one datum in each call. -/
def constant (serial : Nat) (name : String) (d : Datum ω) : Agent ι ω where
  id := .base serial
  name
  start _ _ := .act (.number serial) fun earlier =>
    withCopy d earlier fun copy => .finish (.value copy)

def alwaysFail (serial : Nat) (name reason : String) : Agent ι ω where
  id := .base serial
  name
  start _ _ := .finish (.failure (.ofAgent name reason))

def description (a : Agent ι ω) : String :=
  "Agent \x7b id: AgentId(#), name: " ++ Text.quoted a.name ++ ", input: " ++ Text.quoted ι.name ++
    ", output: " ++ Text.quoted ω.name ++ " \x7d"

end Agent

end Orchestration
