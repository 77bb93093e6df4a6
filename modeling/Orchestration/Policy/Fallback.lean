import Orchestration.Agent

/-!
# Stand-ins

An agent with a stand-in works on a copy of its input. When that fails recoverably, the stand-in
works on the input itself. If it does not succeed either, the first failure stands.
-/

namespace Orchestration

namespace Agent

variable {ι ω : Kind}

/-- The agent with a stand-in. -/
def orElse (primary fallback : Agent ι ω) : Agent ι ω where
  id := .orElse primary.id fallback.id
  name := primary.name
  start input c :=
    withCopy input 0 fun copy => (primary.execute copy c).andThen fun
      | .failure f =>
        if f.recoverable then
          (fallback.execute input c).andThen fun
            | .value v => .finish (.value v)
            | _ => .finish (.failure f)
        else .finish (.failure f)
      | ending => .finish ending

end Agent

end Orchestration
