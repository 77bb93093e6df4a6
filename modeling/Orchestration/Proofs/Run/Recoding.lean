import Orchestration.Proofs.Run.Places

/-! # What a run never reads

A run neither reads inputs of nodes that are no roots nor invokes the agent of a root whose own
input has another kind than the agent takes. With other such inputs, and other code in such agents,
it goes through the same stages. -/

namespace Orchestration

open List

/-- Code for every node. -/
abbrev Code := (n : Node) → Datum n.input → Context → Call (Datum n.output)

/-- The code that the nodes have. -/
def Code.own : Code := fun n => n.agent.start

/-- The node with the given code in its agent. -/
def Node.recoded (code : Code) (n : Node) : Node :=
  { n with agent := { n.agent with start := code n } }

theorem Node.call_recoded_of_code_eq {code : Code} {n : Node} (h : code n = n.agent.start)
    (v : Value) (c : Context) : (n.recoded code).call v c = n.call v c := by
  unfold Node.recoded
  rw [h]

/-- A node that takes another kind of value does not start its agent. -/
theorem Node.call_recoded_of_kind_ne {n : Node} {v : Value} (h : v.kind ≠ n.input) (code : Code)
    (c : Context) : (n.recoded code).call v c = n.call v c := by
  have hnone : v.as? n.input = none := dif_neg h
  unfold Node.call
  rw [hnone, show v.as? (n.recoded code).input = none from hnone]
  rfl

def Plan.recoded (code : Code) (p : Plan) : Plan :=
  { p with nodes := p.nodes.map (.recoded code) }

/-- The job with the given code, on the given inputs. -/
def Job.recoded (code : Code) (inputs : NodeValues) (j : Job) : Job :=
  { j with plan := j.plan.recoded code, inputs }

def Verdict.recoded (code : Code) : Verdict → Verdict
  | goesOn => goesOn
  | succeeded => succeeded
  | failed n f => failed (n.recoded code) f
  | cancelled => cancelled

/-- The stage with the given code and inputs; what is in flight stays as it is. -/
def Stage.recoded (code : Code) (inputs : NodeValues) (g : Stage) : Stage where
  run := { g.run with
    job := g.run.job.recoded code inputs
    ready := g.run.ready.map fun e => (e.1.recoded code, e.2)
    tasks := g.run.tasks.map fun t => ⟨t.node.recoded code, t.call⟩
    ended := g.run.ended.map fun e => ⟨e.node.recoded code, e.ending⟩ }
  verdict := g.verdict.recoded code
  session := g.session
  log := g.log

variable (code : Code) (inputs : NodeValues)

theorem Plan.node?_recoded (p : Plan) (id : String) :
    (p.recoded code).node? id = (p.node? id).map (.recoded code) := by
  rw [node?, recoded, find?_map]
  rfl

theorem Plan.consumers_recoded (p : Plan) (id : String) :
    (p.recoded code).consumers id = (p.consumers id).map (.recoded code) := by
  rw [consumers, consumers, map_filterMap]
  exact filterMap_congr fun id _ => p.node?_recoded code id

/-- Histories do not tell which code the nodes have. -/
theorem Plan.completion_recoded (p : Plan) (n : Node) (output : Value) :
    (p.recoded code).completion (n.recoded code) output = p.completion n output := by
  have hconsumers : (p.recoded code).consumers (n.recoded code).id =
      (p.consumers n.id).map (.recoded code) := p.consumers_recoded code n.id
  rw [completion, completion, hconsumers]
  simp [allReadied, Function.comp_def, Node.recoded]

theorem Plan.roots_recoded (p : Plan) :
    (p.recoded code).roots = p.roots.map (.recoded code) := by
  rw [roots, recoded, filter_map]
  rfl

namespace Stage

variable {g : Stage}

theorem recoded_launch
    (hsame : ∀ e ∈ g.run.ready, ∀ c, (e.1.recoded code).call e.2 c = e.1.call e.2 c) :
    (g.recoded code inputs).launch = g.launch.recoded code inputs := by
  generalize hready : g.run.ready = ready
  induction ready generalizing g with
  | nil =>
      have hready' : (g.recoded code inputs).run.ready = [] := by simp [recoded, hready]
      rw [launch_of_ready_nil hready, launch_of_ready_nil hready']
  | cons e ready ih =>
      obtain ⟨n, v⟩ := e
      have hready' : (g.recoded code inputs).run.ready =
          (n.recoded code, v) :: ready.map fun e => (e.1.recoded code, e.2) := by
        simp [recoded, hready]
      have hroom : (g.recoded code inputs).run.job.hasRoom
          ((g.recoded code inputs).run.ended.length + (g.recoded code inputs).run.tasks.length) =
          g.run.job.hasRoom (g.run.ended.length + g.run.tasks.length) := by
        simp [recoded, Job.recoded, Job.hasRoom]
      cases hyes : g.run.job.hasRoom (g.run.ended.length + g.run.tasks.length) with
      | false =>
          rw [launch_of_not_hasRoom hyes, launch_of_not_hasRoom (hroom.trans hyes)]
      | true =>
          have hcall := hsame (n, v) (by simp [hready])
          have hstart : (g.recoded code inputs).startNext (n.recoded code) v
              (ready.map fun e => (e.1.recoded code, e.2)) =
              (g.startNext n v ready).recoded code inputs := by
            simp only [startNext, recoded, map_append, map_cons, map_nil]
            rw [hcall]
            rfl
          rw [launch_of_hasRoom hready hyes, launch_of_hasRoom hready' (hroom.trans hyes), hstart]
          exact ih (fun e he => hsame e (by rw [hready]; exact mem_cons_of_mem _ he)) rfl

theorem recoded_settle : (g.recoded code inputs).settle = g.settle.recoded code inputs := by
  have hhalt : (g.recoded code inputs).run.halt (g.recoded code inputs).session =
      g.run.halt g.session := by
    simp only [Run.halt, recoded, foldl_map]
    rfl
  unfold settle
  rw [hhalt]
  cases hverdict : g.verdict <;> simp [recoded, hverdict, Verdict.recoded]

theorem recoded_observe : (g.recoded code inputs).observe = g.observe.recoded code inputs := by
  cases hended : g.run.ended with
  | nil =>
      have hended' : (g.recoded code inputs).run.ended = [] := by simp [recoded, hended]
      have hempty : (g.recoded code inputs).run.tasks.isEmpty = g.run.tasks.isEmpty := by
        simp [recoded]
      rw [observe_of_nil hended, observe_of_nil hended', hempty]
      split <;> rfl
  | cons e rest =>
      have hended' : (g.recoded code inputs).run.ended = ⟨e.node.recoded code, e.ending⟩ ::
          rest.map fun e => ⟨e.node.recoded code, e.ending⟩ := by simp [recoded, hended]
      have hresult' : EndedTask.result ⟨e.node.recoded code, e.ending⟩ = e.result := by
        unfold EndedTask.result Node.resultOf
        cases e.ending <;> rfl
      cases hresult : e.result with
      | ok output =>
          have hconsumers : (g.recoded code inputs).run.job.plan.consumers
              (e.node.recoded code).id = (g.run.job.plan.consumers e.node.id).map (.recoded code) :=
            g.run.job.plan.consumers_recoded code e.node.id
          have hlog : (g.recoded code inputs).run.job.plan.completion (e.node.recoded code) output =
              g.run.job.plan.completion e.node output :=
            g.run.job.plan.completion_recoded code e.node output
          have hcomplete : Run.complete { (g.recoded code inputs).run with
                ended := rest.map fun e => ⟨e.node.recoded code, e.ending⟩ }
              (e.node.recoded code) output =
              (Stage.recoded code inputs { g with
                run := { g.run with ended := rest }.complete e.node output }).run := by
            rw [Run.complete_eq, Run.complete_eq]
            dsimp only
            rw [hconsumers]
            simp [recoded, Node.recoded]
          rw [observe_of_ok hended hresult, observe_of_ok hended' (hresult'.trans hresult)]
          dsimp only
          rw [hcomplete, hlog]
          rfl
      | error f =>
          rw [observe_of_error hended hresult, observe_of_error hended' (hresult'.trans hresult)]
          rfl

theorem recoded_poll (i : Nat) :
    (g.recoded code inputs).poll i = (g.poll i).recoded code inputs := by
  have htask : (g.recoded code inputs).run.tasks[i]? =
      (g.run.tasks[i]?).map fun t => ⟨t.node.recoded code, t.call⟩ := by simp [recoded]
  cases ht : g.run.tasks[i]? with
  | none => rw [poll_of_none ht, poll_of_none (by rw [htask, ht]; rfl)]
  | some t =>
      rw [ht, Option.map_some] at htask
      cases hpoll : t.call.poll g.session with
      | mk state s =>
          cases state with
          | waiting call =>
              rw [poll_of_waiting ht hpoll, poll_of_waiting htask hpoll]
              simp [recoded, map_set]
          | ended ending =>
              rw [poll_of_ended ht hpoll, poll_of_ended htask hpoll]
              simp [recoded, eraseIdx_map]

theorem recoded_round
    (hsame : ∀ e ∈ g.run.ready, ∀ c, (e.1.recoded code).call e.2 c = e.1.call e.2 c) :
    (g.recoded code inputs).round = g.round.recoded code inputs := by
  rw [round_eq, round_eq, recoded_launch code inputs hsame, recoded_observe, recoded_settle]
  have hcancelled : { g.launch.recoded code inputs with verdict := .cancelled } =
      ({ g.launch with verdict := .cancelled } : Stage).recoded code inputs := rfl
  rw [hcancelled, recoded_settle]
  exact (apply_ite (Stage.recoded code inputs) _ _ _).symm

theorem recoded_after
    (hsame : ∀ e ∈ g.run.ready, ∀ c, (e.1.recoded code).call e.2 c = e.1.call e.2 c) (m : Move) :
    (g.recoded code inputs).after m = (g.after m).recoded code inputs := by
  by_cases hgoes : g.verdict = .goesOn
  · have hgoes' : (g.recoded code inputs).verdict = .goesOn := by
      simp [recoded, hgoes, Verdict.recoded]
    cases m with
    | round => simpa only [after, hgoes, hgoes'] using recoded_round code inputs hsame
    | poll i => simpa only [after, hgoes, hgoes'] using recoded_poll code inputs i
    | meanwhile change =>
        simp only [after, hgoes, hgoes']
        rfl
  · have hover : (g.recoded code inputs).verdict ≠ .goesOn := by
      intro h
      apply hgoes
      cases hverdict : g.verdict <;> simp_all [recoded, Verdict.recoded]
    rw [after_of_over hgoes, after_of_over hover]

theorem recoded_along (schedule : Nat → Move)
    (hsame : ∀ n, ∀ e ∈ (g.along schedule n).run.ready, ∀ c,
      (e.1.recoded code).call e.2 c = e.1.call e.2 c) (n : Nat) :
    (g.recoded code inputs).along schedule n = (g.along schedule n).recoded code inputs := by
  induction n with
  | zero => rfl
  | succ n ih => rw [along, ih, recoded_after code inputs (hsame n), along]

end Stage

/-! ## Other inputs and other code -/

namespace Job

variable {j : Job}

/-- The inputs are the same at the roots, and the code is the same but in roots whose own input has
another kind than their agent takes. -/
structure SameWhereRead (j : Job) (code : Code) (inputs : NodeValues) : Prop where
  inputs : ∀ n ∈ j.plan.roots, inputs.get? n.id = j.inputs.get? n.id
  code : ∀ n ∈ j.plan.nodes, code n = n.agent.start ∨
    n ∈ j.plan.roots ∧ ∃ v, j.inputs.get? n.id = some v ∧ v.kind ≠ n.input

theorem mapM_rootInput_recoded {roots : List Node}
    (hinputs : ∀ n ∈ roots, inputs.get? n.id = j.inputs.get? n.id) :
    (roots.map (.recoded code)).mapM (j.recoded code inputs).rootInput =
      (roots.mapM j.rootInput).map fun entries => entries.map fun e => (e.1.recoded code, e.2) := by
  induction roots with
  | nil => rfl
  | cons n roots ih =>
      have hn : (j.recoded code inputs).rootInput (n.recoded code) =
          (j.rootInput n).map fun e => (e.1.recoded code, e.2) := by
        have hsame : (j.recoded code inputs).inputs.get? (n.recoded code).id =
            j.inputs.get? n.id := hinputs n mem_cons_self
        rw [rootInput, rootInput, hsame]
        cases j.inputs.get? n.id <;> rfl
      rw [map_cons, mapM_cons, mapM_cons, hn, ih fun m hm => hinputs m (mem_cons_of_mem _ hm)]
      cases j.rootInput n with
      | error f => rfl
      | ok e => cases roots.mapM j.rootInput <;> rfl

theorem rootInputs_recoded (h : j.SameWhereRead code inputs) :
    (j.recoded code inputs).rootInputs =
      j.rootInputs.map fun entries => entries.map fun e => (e.1.recoded code, e.2) := by
  have hroots : (j.recoded code inputs).plan.roots = j.plan.roots.map (.recoded code) :=
    j.plan.roots_recoded code
  have heq := mapM_rootInput_recoded code inputs h.inputs
  rw [← hroots] at heq
  exact heq

theorem begin_recoded (h : j.SameWhereRead code inputs) (s : Session) :
    (j.recoded code inputs).begin s = match j.begin s with
      | (.ended result, s') => (.ended result, s')
      | (.waiting r, s') => (.waiting ((Stage.opening r s').recoded code inputs).run, s') := by
  have hempty : (j.recoded code inputs).plan.nodes.isEmpty = j.plan.nodes.isEmpty := by
    simp [recoded, Plan.recoded]
  unfold begin
  rw [hempty, rootInputs_recoded code inputs h]
  split
  · rfl
  · cases hready : j.rootInputs <;> rfl

theorem call_recoded (h : j.SameWhereRead code inputs) {g : Stage} (hg : g.Accounts j)
    {e : Node × Value} (he : e ∈ g.run.ready) (c : Context) :
    (e.1.recoded code).call e.2 c = e.1.call e.2 c := by
  rcases h.code e.1 (hg.known e he) with hsame | ⟨hroot, v, hv, hkind⟩
  · exact Node.call_recoded_of_code_eq hsame e.2 c
  · have hreadied : .readied e.1.id e.2 ∈ g.log := by
      rw [← mem_readiedIn, hg.queue]
      exact mem_append_right _ (mem_map_of_mem he)
    have hvalue : e.2 = v := by
      rcases (hg.supplied _ _).mp hreadied with ⟨n, hn, hid, hv'⟩ | ⟨producer, hparent, -⟩
      · simpa [hv] using hv'.symm
      · have hnone := (mem_filter.mp hroot).2
        simp [hparent] at hnone
    exact Node.call_recoded_of_kind_ne (hvalue ▸ hkind) code c

/-- Other inputs that are not read and other code that is not invoked make no difference. -/
theorem along_recoded (hplan : j.plan.Built) (h : j.SameWhereRead code inputs) {s s' : Session}
    {r : Run} (hbegin : j.begin s = (.waiting r, s')) (schedule : Nat → Move) (n : Nat) :
    ((Stage.opening r s').recoded code inputs).along schedule n =
      ((Stage.opening r s').along schedule n).recoded code inputs :=
  Stage.recoded_along code inputs schedule
    (fun n _ he => call_recoded code inputs h (Stage.Accounts.along hplan hbegin schedule n) he) n

/-- The changed job sets up the changed run. -/
theorem exists_begin_recoded (h : j.SameWhereRead code inputs) {s s' : Session} {r : Run}
    (hbegin : j.begin s = (.waiting r, s')) :
    ∃ r', (j.recoded code inputs).begin s = (.waiting r', s') ∧
      Stage.opening r' s' = (Stage.opening r s').recoded code inputs := by
  refine ⟨((Stage.opening r s').recoded code inputs).run, ?_, ?_⟩
  · rw [begin_recoded code inputs h, hbegin]
  · simp [Stage.opening, Stage.recoded, Verdict.recoded, allReadied, Node.recoded]

theorem result?_recoded (hplan : j.plan.Built) (h : j.SameWhereRead code inputs) (s : Session)
    (schedule : Nat → Move) (n : Nat) :
    (j.recoded code inputs).result? s schedule n = j.result? s schedule n := by
  unfold result?
  cases hbegin : j.begin s with
  | mk state s' =>
      cases state with
      | ended result => rw [begin_recoded code inputs h, hbegin]
      | waiting r =>
          obtain ⟨r', hbegin', hopening⟩ := exists_begin_recoded code inputs h hbegin
          rw [hbegin']
          dsimp only
          rw [hopening, along_recoded code inputs hplan h hbegin]
          unfold Stage.result?
          cases hverdict : ((Stage.opening r s').along schedule n).verdict <;>
            simp [Stage.recoded, hverdict, Verdict.recoded]

end Job

end Orchestration
