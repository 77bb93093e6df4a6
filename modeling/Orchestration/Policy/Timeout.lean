import Orchestration.Agent

/-!
# Time limits

A timed agent works under a context derived from the one it was given. If the work has not ended
when its time is over, it is dropped, the derived context is cancelled, and the call fails.
-/

namespace Orchestration

namespace Agent

variable {ι ω : Kind}

/-- The agent with a limit on each execution. -/
def timingOut (a : Agent ι ω) (limit : Duration) : Agent ι ω where
  id := .timingOut a.id
  name := a.name
  start input c :=
    .act (.derive c) fun attempt => .act (.timer limit.waitMillis) fun deadline =>
      .within deadline attempt (.failure (.timeout (c.node.getD "") limit))
        (a.execute input attempt)

end Agent

end Orchestration
