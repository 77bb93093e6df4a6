/-!
# Contexts and cancellation

Every call has a context: the trace it belongs to, a cancellation token, and the node it runs in, if
any. Tokens form a forest. Cancelling a token cancels it and all tokens derived from it, before or
afterwards, and nothing else: a token is cancelled exactly when it or one of its ancestors is on the
list of those that were cancelled.
-/

namespace Orchestration

/-- A cancellation token, with the tokens it was derived from, nearest first. -/
structure Token where
  id : Nat
  ancestors : List Nat
deriving DecidableEq

def Token.lineage (t : Token) : List Nat := t.id :: t.ancestors

/-- What a call is told about its surroundings. -/
structure Context where
  trace : Nat
  token : Token
  node : Option String
deriving DecidableEq

def Context.atNode (c : Context) (node : String) : Context := { c with node := some node }

/-- The supply of tokens and traces, and the tokens that were cancelled. -/
structure Registry where
  nextToken : Nat
  nextTrace : Nat
  cancelled : List Nat

namespace Registry

def empty : Registry := ⟨0, 0, []⟩

def freshToken (r : Registry) : Token × Registry :=
  (⟨r.nextToken, []⟩, { r with nextToken := r.nextToken + 1 })

def childToken (r : Registry) (t : Token) : Token × Registry :=
  (⟨r.nextToken, t.lineage⟩, { r with nextToken := r.nextToken + 1 })

def contextOf (r : Registry) (t : Token) : Context × Registry :=
  (⟨r.nextTrace, t, none⟩, { r with nextTrace := r.nextTrace + 1 })

def fresh (r : Registry) : Context × Registry :=
  let (token, r) := r.freshToken
  r.contextOf token

/-- A context of the same trace and node, with a token derived from that of the given one. -/
def child (r : Registry) (c : Context) : Context × Registry :=
  let (token, r) := r.childToken c.token
  ({ c with token }, r)

def cancel (r : Registry) (t : Token) : Registry :=
  { r with cancelled := t.id :: r.cancelled }

def isCancelled (r : Registry) (t : Token) : Bool :=
  t.lineage.any (· ∈ r.cancelled)

/-- Cancelling a token cancels it and what was derived from it, and nothing else. -/
theorem isCancelled_cancel (r : Registry) (t u : Token) :
    (r.cancel u).isCancelled t = (decide (u.id ∈ t.lineage) || r.isCancelled t) := by
  unfold isCancelled cancel
  induction t.lineage with
  | nil => rfl
  | cons n rest ih => grind

end Registry

end Orchestration
