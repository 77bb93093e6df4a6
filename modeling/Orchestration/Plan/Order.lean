/-!
# Topological order

Nodes are taken in the order in which they become free of producers. A node's degree is the number
of its producers that have not been taken yet, so the nodes that are left with a positive degree are
those on a cycle and those behind one.
-/

namespace Orchestration

variable {ι : Type} [DecidableEq ι]

/-- How many producers each node has among the given ones. -/
def inDegree (nodes : List ι) (children : ι → List ι) (n : ι) : Nat :=
  (nodes.flatMap children).count n

/-- Takes one producer from each of the given nodes; those that had only one become free. -/
def release : List ι → (ι → Nat) → List ι × (ι → Nat)
  | [], degree => ([], degree)
  | n :: rest, degree =>
    let left := degree n - 1
    let (free, degree) := release rest fun m => if m = n then left else degree m
    (if left = 0 then n :: free else free, degree)

/-- Takes up to `fuel` nodes, first come first served. The result is what was taken and the degrees
that are left. -/
def takeFree (children : ι → List ι) : (fuel : Nat) → List ι → (ι → Nat) → List ι × (ι → Nat)
  | 0, _, degree => ([], degree)
  | _, [], degree => ([], degree)
  | fuel + 1, n :: queue, degree =>
    let (free, degree) := release (children n) degree
    let (taken, degree) := takeFree children fuel (queue ++ free) degree
    (n :: taken, degree)

/-- The nodes so that producers come before consumers, or the nodes that cannot be ordered. -/
def topologicalOrder (nodes : List ι) (children : ι → List ι) : Except (List ι) (List ι) :=
  let degree := inDegree nodes children
  let (taken, left) := takeFree children nodes.length (nodes.filter (degree · = 0)) degree
  if taken.length = nodes.length then .ok taken else .error (nodes.filter (0 < left ·))

end Orchestration
