import Orchestration.Policy.Set

/-! # Nests of policies

An agent as it was built from others, layer by layer, so that statements about all such agents are
proved by induction on the layers. A copy of an agent is that agent, so copying is no layer, and a
policy set comes down to the layers of its policies. -/

namespace Orchestration

/-- An agent under layers of policies and names, with any agents at the base. -/
inductive Nest (ι ω : Kind) where
  | base (a : Agent ι ω)
  | renamed (inner : Nest ι ω) (name : String)
  | retrying (inner : Nest ι ω) (p : RetryPolicy)
  | timingOut (inner : Nest ι ω) (limit : Duration)
  | orElse (primary fallback : Nest ι ω)

namespace Nest

variable {ι ω : Kind}

/-- The agent that the layers make up. -/
def agent : Nest ι ω → Agent ι ω
  | base a => a
  | renamed inner name => inner.agent.renamed name
  | retrying inner p => inner.agent.retrying p
  | timingOut inner limit => inner.agent.timingOut limit
  | orElse primary fallback => primary.agent.orElse fallback.agent

/-- The agents at the base. -/
def bases : Nest ι ω → List (Agent ι ω)
  | base a => [a]
  | renamed inner _ => inner.bases
  | retrying inner _ => inner.bases
  | timingOut inner _ => inner.bases
  | orElse primary fallback => primary.bases ++ fallback.bases

/-- The layers of a policy set. -/
def withPolicies (t : Nest ι ω) (retry : Option RetryPolicy) (timeout : Option Duration)
    (fallback : Option (Nest ι ω)) : Nest ι ω :=
  let t := timeout.elim t t.timingOut
  let t := retry.elim t t.retrying
  fallback.elim t t.orElse

/-- An agent under a policy set is one of these. -/
theorem agent_withPolicies (t : Nest ι ω) (retry : Option RetryPolicy) (timeout : Option Duration)
    (fallback : Option (Nest ι ω)) : (t.withPolicies retry timeout fallback).agent =
      t.agent.withPolicies ⟨retry, timeout, fallback.map agent⟩ := by
  cases retry <;> cases timeout <;> cases fallback <;> rfl

end Nest

end Orchestration
