import Orchestration.Agent

/-!
# Nodes and edges

A node places an agent in a plan. Its call checks that the value it receives has the agent's input
kind, copies it, and names the node in every failure that names none.
-/

namespace Orchestration

structure Node where
  id : String
  input : Kind
  output : Kind
  agent : Agent input output

/-- A dependency: the target receives what the source yields. -/
structure Edge where
  id : String
  source : String
  target : String
deriving DecidableEq

/-- The edge between two nodes under its usual name. -/
def Edge.between (source target : String) : Edge := ⟨source ++ "->" ++ target, source, target⟩

namespace Node

def failure (n : Node) (reason : String) : Failure := .execution n.id n.agent.name reason

/-- Ends a call with the node's name in its failure. -/
def ascribe {α : Type} (n : Node) : Ending α → Call α
  | .failure f => .finish (.failure (f.atNode n.id))
  | ending => .finish ending

/-- The node's work on a value under a context. The value is copied outside the agent. -/
def call (n : Node) (input : Value) (c : Context) : Call (Datum n.output) :=
  match input.as? n.input with
  | none => .finish (.failure (n.failure ("input type mismatch: expected " ++ n.input.name)))
  | some d => withCopy d 0 fun copy => (n.agent.execute copy c).andThen n.ascribe

end Node

end Orchestration
