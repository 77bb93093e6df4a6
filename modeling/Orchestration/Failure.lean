import Orchestration.Duration

/-!
# Failures

Whatever goes wrong in an agent, a policy, a plan or a run is one of three kinds of failure. An
execution or a timeout may name the node in which it arose; a blank name is filled in once, by the
first node that the failure passes.
-/

namespace Orchestration

inductive Failure where
  | execution (node agent reason : String)
  | invalidPlan (reason : String)
  | timeout (node : String) (limit : Duration)
deriving DecidableEq

namespace Failure

/-- An execution failure that does not know its node yet. -/
def ofAgent (agent reason : String) : Failure := execution "" agent reason

/-- An invalid plan stays invalid; everything else may succeed when tried again. -/
def recoverable : Failure → Bool
  | execution .. | timeout .. => true
  | invalidPlan _ => false

def node? : Failure → Option String
  | execution node .. | timeout node _ => some node
  | invalidPlan _ => none

/-- The failure with a blank node name filled in. -/
def atNode (node : String) : Failure → Failure
  | execution known agent reason => execution (if known = "" then node else known) agent reason
  | timeout known limit => timeout (if known = "" then node else known) limit
  | invalidPlan reason => invalidPlan reason

/-- A name that was filled in stays. -/
theorem atNode_atNode (f : Failure) (a b : String) (h : a ≠ "") :
    (f.atNode a).atNode b = f.atNode a := by
  cases f with
  | execution known => by_cases hk : known = "" <;> simp [atNode, hk, h]
  | invalidPlan => rfl
  | timeout known => by_cases hk : known = "" <;> simp [atNode, hk, h]

theorem recoverable_atNode (f : Failure) (node : String) :
    (f.atNode node).recoverable = f.recoverable := by
  cases f <;> rfl

/-- The text for a log. -/
def message : Failure → String
  | execution node agent reason =>
    "node '" ++ node ++ "' (agent '" ++ agent ++ "') failed: " ++ reason
  | invalidPlan reason => "invalid plan: " ++ reason
  | timeout node limit => "node '" ++ node ++ "' timed out after " ++ limit.text

/-- The text for a user. -/
def userMessage : Failure → String
  | execution node _ reason =>
    (if node = "" then "Agent" else "Step '" ++ node ++ "'") ++ " failed: " ++ reason
  | invalidPlan reason => "The plan is invalid: " ++ reason
  | timeout node limit => "Step '" ++ node ++ "' took longer than " ++ limit.text ++ "."

end Failure

end Orchestration
