import Orchestration.Proofs.Run.Recoding
import Orchestration.Proofs.Run.Success

/-! # Kinds of values in runs

Kinds agree along the edges of a plan, so what a node is handed by its producer has the kind that it
takes. Only a root can be given a value of another kind, as its own input; then its agent does not
come into play. -/

namespace Orchestration

open List

/-- The failure of a node that was given a value of another kind than it takes. -/
def Node.mismatch (n : Node) : Failure :=
  n.failure ("input type mismatch: expected " ++ n.input.name)

theorem Node.call_of_as?_eq_none {n : Node} {v : Value} (h : v.as? n.input = none) (c : Context) :
    n.call v c = .finish (.failure n.mismatch) := by
  unfold Node.call
  rw [h]
  rfl

theorem Value.as?_eq_none_iff (v : Value) (κ : Kind) : v.as? κ = none ↔ v.kind ≠ κ := by
  simp [Value.as?]

theorem Node.kind_of_resultOf {n : Node} {ending : Ending (Datum n.output)} {w : Value}
    (h : n.resultOf ending = .ok w) : w.kind = n.output := by
  cases ending with
  | value d =>
      obtain rfl : d.value = w := by simpa [Node.resultOf] using h
      exact d.kind_eq
  | failure f => simp [Node.resultOf] at h
  | fault f => simp [Node.resultOf] at h

namespace Stage.Accounts

variable {j : Job} {g : Stage}

/-- What a node has come to has the kind that the node yields. -/
theorem kind_of_completed (h : g.Accounts j) {id : String} {w : Value}
    (hmem : .completed id w ∈ g.log) : ∃ n ∈ j.plan.nodes, n.id = id ∧ w.kind = n.output := by
  obtain ⟨n, hn, hid, v, c, ending, -, -, hresult⟩ := h.cameTo_of_completed hmem
  exact ⟨n, hn, hid, Node.kind_of_resultOf hresult⟩

/-- What a node is given is its own input, or it has the kind that the node takes. -/
theorem kind_of_readied (h : g.Accounts j) (hplan : j.plan.Built) {n : Node}
    (hn : n ∈ j.plan.nodes) {v : Value} (hmem : .readied n.id v ∈ g.log) :
    n ∈ j.plan.roots ∧ j.inputs.get? n.id = some v ∨ v.kind = n.input := by
  rcases (h.supplied n.id v).mp hmem with ⟨m, hm, hid, hv⟩ | ⟨producer, hparent, hdone⟩
  · obtain rfl := hplan.eq_of_id_eq (mem_filter.mp hm).1 hn hid
    exact .inl ⟨hm, hv⟩
  · obtain ⟨m, hm, rfl, hkind⟩ := h.kind_of_completed hdone
    exact .inr (hkind.trans (hplan.output_eq_input hm hn hparent))

/-- A node is started with one value. -/
theorem eq_of_started (h : g.Accounts j) {id : String} {v w : Value}
    (hv : .started id v ∈ g.log) (hw : .started id w ∈ g.log) : v = w := by
  have hsame := inj_on_of_nodup_map h.startedOnce ((mem_startedIn _ _ _).mpr hv)
    ((mem_startedIn _ _ _).mpr hw) rfl
  exact (Prod.mk.inj hsame).2

/-- While a node that was given another kind of value is in flight, all that there is of it is its
failure. -/
theorem eq_of_mismatch (h : g.Accounts j) (hplan : j.plan.Built) {n : Node}
    (hn : n ∈ j.plan.nodes) {v : Value} (hstarted : .started n.id v ∈ g.log)
    (hnone : v.as? n.input = none) :
    (∀ t ∈ g.run.tasks, t.node.id = n.id → t = ⟨n, .finish (.failure n.mismatch)⟩) ∧
      ∀ e ∈ g.run.ended, e.node.id = n.id → e = ⟨n, .failure n.mismatch⟩ := by
  constructor
  · rintro ⟨m, call⟩ ht hid
    obtain ⟨hm, w, c, hstarted', hcall⟩ := h.tasks _ ht
    obtain rfl : m = n := hplan.eq_of_id_eq hm hn hid
    obtain rfl := h.eq_of_started hstarted' hstarted
    rw [Node.call_of_as?_eq_none hnone] at hcall
    exact congrArg (Task.mk m) (Call.remains_finish hcall)
  · rintro ⟨m, ending⟩ he hid
    obtain ⟨hm, w, c, hstarted', hcall⟩ := h.ended _ he
    obtain rfl : m = n := hplan.eq_of_id_eq hm hn hid
    obtain rfl := h.eq_of_started hstarted' hstarted
    rw [Node.call_of_as?_eq_none hnone] at hcall
    exact congrArg (EndedTask.mk m) (Call.mayEnd_finish hcall)

/-- Such a node comes to nothing but its failure. -/
theorem cameTo_of_mismatch (h : g.Accounts j) (hplan : j.plan.Built) {n : Node}
    (hn : n ∈ j.plan.nodes) {v : Value} (hstarted : .started n.id v ∈ g.log)
    (hnone : v.as? n.input = none) {result : Except Failure Value}
    (hcame : j.CameTo g.log n.id result) : result = .error n.mismatch := by
  obtain ⟨m, hm, hid, w, c, ending, hstarted', hend, rfl⟩ := hcame
  obtain rfl := hplan.eq_of_id_eq hm hn hid
  obtain rfl := h.eq_of_started hstarted' hstarted
  rw [Node.call_of_as?_eq_none hnone] at hend
  rw [Call.mayEnd_finish hend]
  rfl

end Stage.Accounts

/-! ## Soundness of kinds -/

/-- The check of a node's input has failed at a stage of the run: the node is a root with an input
of another kind, all that there is of it is the failure of that check, and with any other code in
its agent everything would be the same. -/
structure Job.Mismatched (j : Job) (s : Session) (schedule : Nat → Move) (n : Nat) (g : Stage)
    (node : Node) (v : Value) : Prop where
  root : node ∈ j.plan.roots
  input : j.inputs.get? node.id = some v
  kind : v.kind ≠ node.input
  tasks : ∀ t ∈ g.run.tasks, t.node.id = node.id → t = ⟨node, .finish (.failure node.mismatch)⟩
  ended : ∀ e ∈ g.run.ended, e.node.id = node.id → e = ⟨node, .failure node.mismatch⟩
  result : ∀ result, j.CameTo g.log node.id result → result = .error node.mismatch
  uninvoked : ∀ code : Code, (∀ m ∈ j.plan.nodes, m ≠ node → code m = m.agent.start) →
    ∃ r s', (j.recoded code j.inputs).begin s = (.waiting r, s') ∧
      (Stage.opening r s').along schedule n = g.recoded code j.inputs

theorem Job.mismatched {j : Job} (hplan : j.plan.Built) {s s' : Session} {r : Run}
    (hbegin : j.begin s = (.waiting r, s')) (schedule : Nat → Move) (n : Nat) {node : Node}
    (hnode : node ∈ j.plan.nodes) {v : Value}
    (hstarted : .started node.id v ∈ ((Stage.opening r s').along schedule n).log)
    (hnone : v.as? node.input = none) :
    j.Mismatched s schedule n ((Stage.opening r s').along schedule n) node v := by
  have h := Stage.Accounts.along hplan hbegin schedule n
  have hkind : v.kind ≠ node.input := (v.as?_eq_none_iff _).mp hnone
  obtain ⟨hroot, hinput⟩ :=
    (h.kind_of_readied hplan hnode (h.readied_of_started hstarted)).resolve_right hkind
  obtain ⟨htasks, hended⟩ := h.eq_of_mismatch hplan hnode hstarted hnone
  refine ⟨hroot, hinput, hkind, htasks, hended,
    fun result => h.cameTo_of_mismatch hplan hnode hstarted hnone, ?_⟩
  intro code hcode
  have hread : j.SameWhereRead code j.inputs := by
    refine ⟨fun _ _ => rfl, fun m hm => ?_⟩
    by_cases hsame : m = node
    · subst hsame
      exact .inr ⟨hroot, v, hinput, hkind⟩
    · exact .inl (hcode m hm hsame)
  obtain ⟨r', hbegin', hopening⟩ := j.exists_begin_recoded code j.inputs hread hbegin
  exact ⟨r', s', hbegin', hopening ▸ j.along_recoded code j.inputs hplan hread hbegin schedule n⟩

/-- The outputs of a run that succeeds have the kinds that the nodes declare. -/
theorem Job.typed?_outputs {j : Job} (hplan : j.plan.Built) {s : Session} {schedule : Nat → Move}
    {n : Nat} {outputs : NodeValues} (h : j.result? s schedule n = some (.ok outputs)) (id : String)
    (κ : Kind) :
    (outputs.typed? id κ).isSome ↔ ∃ node ∈ j.plan.nodes, node.id = id ∧ node.output = κ := by
  rcases j.result?_eq_some h with (⟨hnodes, hresult⟩ | ⟨f, -, hresult⟩) | ⟨r, s', hbegin, hresult⟩
  · obtain rfl : outputs = .empty := Except.ok.inj hresult
    simp [hnodes, NodeValues.typed?, NodeValues.get?, NodeValues.empty]
  · cases hresult
  · obtain ⟨hverdict, rfl⟩ := (Stage.result?_eq_ok_iff _ _).mp hresult
    have haccounts := Stage.Accounts.along hplan hbegin schedule n
    have hinputs := fun m (hm : m ∈ j.plan.roots) => Job.exists_input_of_begin hbegin hm
    have hperm := haccounts.perm_keys_of_succeeded hplan hinputs hverdict
    rw [NodeValues.typed?, Option.isSome_filter, Option.any_eq_true]
    simp only [haccounts.get?_outputs_eq_some_iff, decide_eq_true_eq]
    constructor
    · rintro ⟨w, hw, rfl⟩
      obtain ⟨node, hnode, hid, hkind⟩ := haccounts.kind_of_completed hw
      exact ⟨node, hnode, hid, hkind.symm⟩
    · rintro ⟨node, hnode, rfl, rfl⟩
      obtain ⟨w, hw⟩ := (haccounts.mem_keys_iff _).mp (hperm.mem_iff.mpr (mem_map_of_mem hnode))
      obtain ⟨m, hm, hid, hkind⟩ := haccounts.kind_of_completed hw
      obtain rfl := hplan.eq_of_id_eq hm hnode hid
      exact ⟨w, hw, hkind⟩

/-- No node is ever given a value of another kind than it takes, unless it is a root and the value
is its own input; the agent of such a root is never invoked. The outputs of a run that succeeds have
the kinds that the nodes declare. -/
theorem Job.kinds_sound {j : Job} (hplan : j.plan.Built) (s : Session) (schedule : Nat → Move)
    (n : Nat) :
    (∀ r s', j.begin s = (.waiting r, s') →
      let g := (Stage.opening r s').along schedule n
      (∀ node ∈ j.plan.nodes, node ∉ j.plan.roots → ∀ v, .readied node.id v ∈ g.log →
        v.kind = node.input) ∧
      ∀ node ∈ j.plan.nodes, ∀ v, .started node.id v ∈ g.log → v.as? node.input = none →
        j.Mismatched s schedule n g node v) ∧
    ∀ outputs, j.result? s schedule n = some (.ok outputs) → ∀ id κ,
      (outputs.typed? id κ).isSome ↔ ∃ node ∈ j.plan.nodes, node.id = id ∧ node.output = κ := by
  refine ⟨fun r s' hbegin => ⟨?_, ?_⟩, fun outputs => j.typed?_outputs hplan⟩
  · intro node hnode hroot v hreadied
    have h := Stage.Accounts.along hplan hbegin schedule n
    exact (h.kind_of_readied hplan hnode hreadied).resolve_left fun hown => hroot hown.1
  · exact fun node hnode v => j.mismatched hplan hbegin schedule n hnode

theorem Job.kinds_sound_relays :
    (Job.relays (.int 3)).Mismatched .initial .inTurn 1
      ((Stage.opening (.relays (.int 3)) .second).along .inTurn 1) (.relay 0 "a") (.int 3) ∧
    ∃ outputs, (Job.relays (.text "x")).result? .initial .inTurn 9 = some (.ok outputs) ∧
      (outputs.typed? "b" .text).isSome := by
  constructor
  · have h := (Job.kinds_sound Plan.built_relays .initial .inTurn 1).1 _ _
      (Job.begin_relays (.int 3))
    exact h.2 (.relay 0 "a") mem_cons_self (.int 3) (by decide) (by decide)
  · have h := (Job.kinds_sound (j := .relays (.text "x")) Plan.built_relays .initial .inTurn 9).2
    refine ⟨⟨[("a", .text "x"), ("b", .text "x")]⟩, by rfl, ?_⟩
    exact (h _ (by rfl) "b" .text).mpr ⟨.relay 1 "b", by simp [relays, Plan.relays], rfl, rfl⟩

end Orchestration
