import Orchestration.Proofs.Call.Endings
import Orchestration.Proofs.Run.Kinds

/-! # The reference evaluation of a plan

If the agents of a plan always do the same on the same input, then what each node receives and what
it makes of it do not depend on any schedule: a root receives its own input, every other node what
its producer yields. Whatever happens in a run of the plan happens in this evaluation. -/

namespace Orchestration

open List

/-- How each node's agent ends on an input. -/
abbrev Behaviour := (n : Node) → Datum n.input → Ending (Datum n.output)

/-- Every agent of the plan ends as the behaviour says, after an arbitrary finite wait. -/
def Plan.Behaves (p : Plan) (b : Behaviour) : Prop :=
  ∀ n ∈ p.nodes, ∀ d c, (n.agent.start d c).Settles (b n d)

namespace Ending

variable {α : Type}

/-- A failure that names no node is ascribed to one. -/
def ascribed (id : String) : Ending α → Ending α
  | failure f => failure (f.atNode id)
  | ending => ending

theorem ascribe_eq (n : Node) (e : Ending α) : n.ascribe e = .finish (e.ascribed n.id) := by
  cases e <;> rfl

end Ending

namespace Node

/-- How the task of a node ends on a value: the value is checked and copied before the agent has it,
the agent's faults are captured, and its failures are ascribed to the node. -/
def ending (b : Behaviour) (n : Node) (v : Value) : Ending (Datum n.output) :=
  match v.as? n.input with
  | none => .failure n.mismatch
  | some d =>
    match d.copy 0 with
    | .error f => .fault f
    | .ok copy => ((b n copy).captured n.agent.name).ascribed n.id

/-- What a node makes of a value. -/
def reply (b : Behaviour) (n : Node) (v : Value) : Except Failure Value :=
  n.resultOf (n.ending b v)

theorem settles_call {b : Behaviour} {n : Node} (h : ∀ d c, (n.agent.start d c).Settles (b n d))
    (v : Value) (c : Context) : (n.call v c).Settles (n.ending b v) := by
  unfold call ending
  cases v.as? n.input with
  | none => exact .finish _
  | some d =>
      dsimp only
      unfold withCopy
      cases d.copy 0 with
      | error f => exact .finish _
      | ok copy =>
          dsimp only
          have hcapture : (captureFault n.agent.name (b n copy)).Settles
              ((b n copy).captured n.agent.name) := by
            rw [Ending.captureFault_eq]
            exact .finish _
          have hascribe : (n.ascribe ((b n copy).captured n.agent.name)).Settles
              (((b n copy).captured n.agent.name).ascribed n.id) := by
            rw [Ending.ascribe_eq]
            exact .finish _
          exact ((h copy c).andThen hcapture).andThen hascribe

end Node

namespace Plan

variable {p : Plan} {inputs : NodeValues} {b : Behaviour}

/-- What the nodes of a plan receive. -/
inductive Receives (p : Plan) (inputs : NodeValues) (b : Behaviour) : Node → Value → Prop where
  | own {n : Node} {v : Value} (hroot : n ∈ p.roots) (hv : inputs.get? n.id = some v) :
      Receives p inputs b n v
  | handed {producer n : Node} {v w : Value} (hproducer : Receives p inputs b producer v)
      (hreply : producer.reply b v = .ok w) (hn : n ∈ p.nodes)
      (hparent : p.parent? n.id = some producer.id) : Receives p inputs b n w

/-- The node is reached, since all nodes before it succeed, and it comes to that. -/
def ComesTo (p : Plan) (inputs : NodeValues) (b : Behaviour) (n : Node)
    (result : Except Failure Value) : Prop :=
  ∃ v, p.Receives inputs b n v ∧ n.reply b v = result

theorem Receives.mem_nodes {n : Node} {v : Value} (h : p.Receives inputs b n v) : n ∈ p.nodes := by
  cases h with
  | own hroot hv => exact (mem_filter.mp hroot).1
  | handed hproducer hreply hn hparent => exact hn

/-- A node receives one value at most. -/
theorem Receives.unique (hplan : p.Built) {n : Node} {v w : Value}
    (hv : p.Receives inputs b n v) (hw : p.Receives inputs b n w) : v = w := by
  induction hv generalizing w with
  | own hroot hv =>
      cases hw with
      | own hroot' hw => simpa [hv] using hw
      | handed hproducer hreply hn hparent =>
          have hnone := (mem_filter.mp hroot).2
          simp [hparent] at hnone
  | @handed producer n v v' hproducer hreply hn hparent ih =>
      cases hw with
      | own hroot hw =>
          have hnone := (mem_filter.mp hroot).2
          simp [hparent] at hnone
      | @handed producer' _ w w' hproducer' hreply' hn' hparent' =>
          have hid : producer.id = producer'.id := by simpa [hparent] using hparent'
          obtain rfl := hplan.eq_of_id_eq hproducer.mem_nodes hproducer'.mem_nodes hid
          obtain rfl := ih hproducer'
          simpa [hreply] using hreply'

theorem ComesTo.mem_nodes {n : Node} {result : Except Failure Value}
    (h : p.ComesTo inputs b n result) : n ∈ p.nodes := by
  obtain ⟨v, hv, -⟩ := h
  exact hv.mem_nodes

theorem ComesTo.unique (hplan : p.Built) {n : Node} {result other : Except Failure Value}
    (h : p.ComesTo inputs b n result) (h' : p.ComesTo inputs b n other) : result = other := by
  obtain ⟨v, hv, rfl⟩ := h
  obtain ⟨w, hw, rfl⟩ := h'
  rw [hv.unique hplan hw]

/-- A result of the plan is that of the reference evaluation: if no node fails there, the outputs of
all nodes, each once, and otherwise the failure of a node that fails there. -/
def Agrees (p : Plan) (inputs : NodeValues) (b : Behaviour) (result : RunResult) : Prop :=
  ((∀ n f, ¬ p.ComesTo inputs b n (.error f)) →
    ∃ outputs, result = .ok outputs ∧ outputs.entries.keys.Perm p.ids ∧
      ∀ n ∈ p.nodes, ∃ w, p.ComesTo inputs b n (.ok w) ∧ outputs.get? n.id = some w) ∧
  ((∃ n f, p.ComesTo inputs b n (.error f)) →
    ∃ n f, p.ComesTo inputs b n (.error f) ∧ result = .error f)

/-- If all nodes come to a value, the result is that of all of them. -/
theorem agrees_ok (hplan : p.Built) {outputs : NodeValues}
    (hkeys : outputs.entries.keys.Perm p.ids)
    (hall : ∀ n ∈ p.nodes, ∃ w, p.ComesTo inputs b n (.ok w) ∧ outputs.get? n.id = some w) :
    p.Agrees inputs b (.ok outputs) := by
  refine ⟨fun _ => ⟨outputs, rfl, hkeys, hall⟩, ?_⟩
  rintro ⟨n, f, hfails⟩
  obtain ⟨w, hw, -⟩ := hall n hfails.mem_nodes
  cases hw.unique hplan hfails

theorem agrees_error {n : Node} {f : Failure} (hfails : p.ComesTo inputs b n (.error f)) :
    p.Agrees inputs b (.error f) :=
  ⟨fun hnone => absurd hfails (hnone n f), fun _ => ⟨n, f, hfails, rfl⟩⟩

end Plan

/-! ## Runs follow the reference evaluation -/

namespace Stage.Accounts

variable {j : Job} {b : Behaviour} {g : Stage}

/-- If a node is started only on what it receives, it comes to what the reference says. -/
theorem comesTo_of_cameTo (h : g.Accounts j) (hplan : j.plan.Built) (hb : j.plan.Behaves b)
    {n : Node} (hn : n ∈ j.plan.nodes)
    (hreceives : ∀ v, .readied n.id v ∈ g.log → j.plan.Receives j.inputs b n v)
    {result : Except Failure Value} (hcame : j.CameTo g.log n.id result) :
    j.plan.ComesTo j.inputs b n result := by
  obtain ⟨m, hm, hid, v, c, ending, hstarted, hend, rfl⟩ := hcame
  obtain rfl := hplan.eq_of_id_eq hm hn hid
  obtain rfl := (Node.settles_call (hb m hm) v c).eq_of_mayEnd hend
  exact ⟨v, hreceives v (h.readied_of_started hstarted), rfl⟩

/-- What a node is given in a run is what it receives. -/
theorem receives_of_readied (h : g.Accounts j) (hplan : j.plan.Built) (hb : j.plan.Behaves b)
    {n : Node} (hn : n ∈ j.plan.nodes) {v : Value} (hmem : .readied n.id v ∈ g.log) :
    j.plan.Receives j.inputs b n v := by
  generalize hid : n.id = id at hmem
  -- The producer was itself started only on what it receives.
  induction id using hplan.wellFounded_parent?.induction generalizing n v with
  | _ id ih =>
      subst hid
      rcases (h.supplied n.id v).mp hmem with ⟨m, hm, hid, hv⟩ | ⟨producer, hparent, hdone⟩
      · obtain rfl := hplan.eq_of_id_eq (mem_filter.mp hm).1 hn hid
        exact .own hm hv
      · obtain ⟨m, hm, rfl⟩ := mem_map.mp (hplan.mem_ids_of_parent? hparent).1
        obtain ⟨w, hw, hreply⟩ := h.comesTo_of_cameTo hplan hb hm
          (fun w hw => ih m.id hparent hm rfl hw) (h.cameTo_of_completed hdone)
        exact .handed hw hreply hn hparent

/-- What a node comes to in a run is what it comes to in the reference evaluation. -/
theorem comesTo (h : g.Accounts j) (hplan : j.plan.Built) (hb : j.plan.Behaves b) {n : Node}
    (hn : n ∈ j.plan.nodes) {result : Except Failure Value}
    (hcame : j.CameTo g.log n.id result) : j.plan.ComesTo j.inputs b n result :=
  h.comesTo_of_cameTo hplan hb hn (fun _ hmem => h.receives_of_readied hplan hb hn hmem) hcame

end Stage.Accounts

end Orchestration
