import Orchestration.Plan.Node
import Orchestration.Plan.Order

/-!
# Plans

A draft is a list of nodes and a list of edges. Building it checks, in this order, that names are
unique, that edges join nodes, that there is no cycle, that no node has two producers, and that
kinds agree along every edge; the first violation is reported. What passes is a forest: each node
receives its input from its only producer, or from outside if it is a root.
-/

namespace Orchestration

/-- Nodes and edges before they are checked. -/
structure Draft where
  nodes : List Node
  edges : List Edge

/-- Why a draft is not a plan. -/
inductive PlanFault where
  | duplicateNode (node : String)
  | unknownNode (edge node : String)
  | cycle (nodes : List String)
  | manyProducers (node first second : String)
  | kindMismatch (edge producer : String) (output : Kind) (consumer : String) (input : Kind)
deriving DecidableEq

namespace PlanFault

def message : PlanFault → String
  | duplicateNode node => "duplicate node id '" ++ node ++ "'"
  | unknownNode edge node => "edge '" ++ edge ++ "' references unknown node '" ++ node ++ "'"
  | cycle nodes => "dependency cycle among nodes [" ++ ", ".intercalate nodes ++ "]"
  | manyProducers node first second =>
    "node '" ++ node ++ "' has more than one upstream producer ('" ++ first ++ "' and '" ++
      second ++ "')"
  | kindMismatch edge producer output consumer input =>
    "edge '" ++ edge ++ "' connects output " ++ output.name ++ " of '" ++ producer ++
      "' to input " ++ input.name ++ " of '" ++ consumer ++ "'"

def failure (f : PlanFault) : Failure := .invalidPlan f.message

end PlanFault

/-- A dependency without its name: source and target. -/
abbrev Link := String × String

namespace Link

def targets (links : List Link) (source : String) : List String :=
  (links.filter (·.1 = source)).map (·.2)

def source? (links : List Link) (target : String) : Option String :=
  (links.find? (·.2 = target)).map (·.1)

end Link

/-- A draft that passed all checks, with its links, each once, and the order of its nodes. -/
structure Plan where
  nodes : List Node
  edges : List Edge
  links : List Link
  order : List String

namespace Draft

/-- The first node name that an earlier node has. -/
def duplicate? : (seen : List String) → List Node → Option String
  | _, [] => none
  | seen, n :: rest => if n.id ∈ seen then some n.id else duplicate? (n.id :: seen) rest

/-- The first end of an edge that is no node, its source before its target. -/
def unknownEnd? (d : Draft) : Option (String × String) :=
  (d.edges.flatMap fun e => [(e.id, e.source), (e.id, e.target)]).find? fun end' =>
    !d.nodes.any (·.id = end'.2)

/-- The edges as links; an edge that repeats another one adds none. -/
def links (d : Draft) : List Link := (d.edges.map fun e => (e.source, e.target)).eraseDups

/-- The first link that gives its target another producer: target, producer so far, new one. -/
def conflict? : (seen : List Link) → List Link → Option (String × String × String)
  | _, [] => none
  | seen, (source, target) :: rest =>
    match Link.source? seen target with
    | some known => some (target, known, source)
    | none => conflict? ((source, target) :: seen) rest

def node? (d : Draft) (id : String) : Option Node := d.nodes.find? (·.id = id)

/-- The first edge whose ends differ in kind. -/
def mismatch? (d : Draft) : Option PlanFault :=
  d.edges.findSome? fun e =>
    match d.node? e.source, d.node? e.target with
    | some producer, some consumer =>
      if producer.output = consumer.input then none
      else some (.kindMismatch e.id producer.id producer.output consumer.id consumer.input)
    | _, _ => none

def refuse {α : Type} (found : Option α) (fault : α → PlanFault) : Except PlanFault Unit :=
  match found with
  | some a => .error (fault a)
  | none => .ok ()

def build (d : Draft) : Except PlanFault Plan := do
  refuse (duplicate? [] d.nodes) .duplicateNode
  refuse d.unknownEnd? fun (edge, node) => .unknownNode edge node
  let links := d.links
  let order ← (topologicalOrder (d.nodes.map (·.id)) (Link.targets links)).mapError .cycle
  refuse (conflict? [] links) fun (node, first, second) => .manyProducers node first second
  refuse d.mismatch? id
  return ⟨d.nodes, d.edges, links, order⟩

end Draft

namespace Plan

def node? (p : Plan) (id : String) : Option Node := p.nodes.find? (·.id = id)

def contains (p : Plan) (id : String) : Bool := p.nodes.any (·.id = id)

/-- The producer of a node. -/
def parent? (p : Plan) (id : String) : Option String := Link.source? p.links id

/-- The consumers of a node, in the order of the first edges to them. -/
def dependents (p : Plan) (id : String) : List String := Link.targets p.links id

def isRoot (p : Plan) (id : String) : Bool := p.contains id && (p.parent? id).isNone

def roots (p : Plan) : List Node := p.nodes.filter fun n => (p.parent? n.id).isNone

/-! ## Statistics -/

structure Stats where
  nodes : Nat
  edges : Nat
  roots : Nat
  maxDepth : Nat
deriving DecidableEq

/-- The depths of the nodes of an order, given those of earlier ones: one more than the producer's,
or zero where no producer is among them. -/
def depths (p : Plan) (known : List (String × Nat)) : List String → List (String × Nat)
  | [] => known
  | id :: rest =>
    let depth := match (p.parent? id).bind fun producer => known.lookup producer with
      | some d => d + 1
      | none => 0
    p.depths ((id, depth) :: known) rest

def stats (p : Plan) : Stats where
  nodes := p.nodes.length
  edges := p.edges.length
  roots := p.roots.length
  maxDepth := ((p.depths [] p.order).map (·.2)).foldl max 0

end Plan

end Orchestration
