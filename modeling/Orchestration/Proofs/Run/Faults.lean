import Orchestration.Proofs.Policy.Containment
import Orchestration.Proofs.Run.Failing
import Orchestration.Proofs.Run.Kinds

/-! # Faults in runs

What an agent does cannot make a node's task fault, for its faults stop at the agent. Only the copy
of the node's input is made outside of it. A task that faults ends the run with a failure of the
node, and no run ends in another way than with outputs or with a failure. -/

namespace Orchestration

open List

/-- The failure of a node whose task has faulted. -/
def Node.panicked (n : Node) : Failure := .execution n.id n.agent.name "node task panicked"

namespace Node

/-- A value that the node takes, but that cannot be copied. -/
def CannotCopy (n : Node) (v : Value) (f : Fault) : Prop :=
  ∃ d, v.as? n.input = some d ∧ d.copy 0 = .error f

variable {n : Node} {v : Value} {f : Fault}

theorem CannotCopy.call_eq (h : n.CannotCopy v f) (c : Context) :
    n.call v c = .finish (.fault f) := by
  obtain ⟨d, hd, hcopy⟩ := h
  unfold call
  rw [hd]
  exact withCopy_of_error hcopy _

/-- A node's task faults if its input cannot be copied, and in no other way. -/
theorem mayEnd_fault_iff (n : Node) (v : Value) (c : Context) (f : Fault) :
    (n.call v c).MayEnd (.fault f) ↔ n.CannotCopy v f := by
  constructor
  · intro h
    unfold call at h
    cases hd : v.as? n.input with
    | none =>
        rw [hd] at h
        cases Call.mayEnd_finish h
    | some d =>
        rw [hd] at h
        dsimp only at h
        cases hcopy : d.copy 0 with
        | error f' =>
            rw [withCopy_of_error hcopy] at h
            cases Call.mayEnd_finish h
            exact ⟨d, hd, hcopy⟩
        | ok copy =>
            unfold withCopy at h
            rw [hcopy] at h
            obtain ⟨ending, hexecute, hend⟩ := Call.mayEnd_andThen h
            cases ending with
            | fault f' => exact absurd hexecute (not_mayEnd_fault _ _ f')
            | value d => cases Call.mayEnd_finish hend
            | failure f' => cases Call.mayEnd_finish hend
  · intro h
    rw [h.call_eq c]
    exact .of_ended (s := .initial) rfl

end Node

/-! ## In the accounts of a run -/

namespace Stage.Accounts

variable {j : Job} {g : Stage} {n : Node} {v : Value} {f : Fault}

/-- All that a node comes to whose input cannot be copied. -/
theorem cameTo_of_cannotCopy (h : g.Accounts j) (hplan : j.plan.Built) (hn : n ∈ j.plan.nodes)
    (hstarted : .started n.id v ∈ g.log) (hcopy : n.CannotCopy v f)
    {result : Except Failure Value} (hcame : j.CameTo g.log n.id result) :
    result = .error n.panicked := by
  obtain ⟨m, hm, hid, w, c, ending, hstarted', hend, rfl⟩ := hcame
  obtain rfl := hplan.eq_of_id_eq hm hn hid
  obtain rfl := h.eq_of_started hstarted' hstarted
  rw [hcopy.call_eq c] at hend
  rw [Call.mayEnd_finish hend]
  rfl

/-- When a run has succeeded, all nodes that it started have completed. -/
theorem exists_completed_of_succeeded (h : g.Accounts j) (hverdict : g.verdict = .succeeded)
    {id : String} {v : Value} (hstarted : .started id v ∈ g.log) :
    ∃ w, .completed id w ∈ g.log := by
  obtain ⟨-, htasks, hended⟩ := h.idle hverdict
  have hflights : ((startedIn g.log).map (·.1)).Perm ((completedIn g.log).map (·.1)) := by
    simpa [taskIds, endedIds, htasks, hended, hverdict, Verdict.failedIds] using h.flights
  have hid : id ∈ (completedIn g.log).map (·.1) :=
    hflights.mem_iff.mp (mem_map_of_mem ((mem_startedIn _ _ _).mpr hstarted))
  obtain ⟨⟨_, w⟩, hmem, rfl⟩ := mem_map.mp hid
  exact ⟨w, (mem_completedIn _ _ _).mp hmem⟩

theorem not_completed_of_cannotCopy (h : g.Accounts j) (hplan : j.plan.Built)
    (hn : n ∈ j.plan.nodes) (hstarted : .started n.id v ∈ g.log) (hcopy : n.CannotCopy v f)
    (w : Value) : .completed n.id w ∉ g.log := by
  intro hmem
  cases h.cameTo_of_cannotCopy hplan hn hstarted hcopy (h.cameTo_of_completed hmem)

end Stage.Accounts

/-! ## In the turns of a run -/

/-- A task that ends whenever it is polled is among those that end, after those before it. -/
theorem Task.exists_ended_of_pollWhere {wanted : Task → Bool} {t : Task}
    {ending : Ending (Datum t.node.output)} (hwanted : wanted t = true)
    (hends : ∀ s, (t.call.poll s).1 = .ended ending) (before after : List Task) (s : Session) :
    ∃ earlier later,
      (pollWhere wanted (before ++ t :: after) s).1.1 = earlier ++ ⟨t.node, ending⟩ :: later := by
  induction before generalizing s with
  | nil =>
      refine ⟨[], (pollWhere wanted after (t.call.poll s).2).1.1, ?_⟩
      rw [nil_append, pollWhere_of_wanted hwanted]
      simp [hends s]
  | cons u before ih =>
      rw [cons_append]
      cases hu : wanted u with
      | false =>
          obtain ⟨earlier, later, h⟩ := ih s
          rw [pollWhere_of_unwanted hu]
          exact ⟨earlier, later, h⟩
      | true =>
          obtain ⟨earlier, later, h⟩ := ih (u.call.poll s).2
          rw [pollWhere_of_wanted hu]
          dsimp only
          split
          · rename_i e _
            exact ⟨⟨u.node, e⟩ :: earlier, later, congrArg (_ :: ·) h⟩
          · exact ⟨earlier, later, h⟩

namespace Job

/-- What a run makes of faults. -/
structure ContainsFaults (j : Job) : Prop where
  /-- A node's task faults if its input cannot be copied, before the agent is executed, and in no
  other way. -/
  faults : ∀ n ∈ j.plan.nodes, ∀ v c f,
    ((n.call v c).MayEnd (.fault f) ↔ n.CannotCopy v f) ∧
      (n.CannotCopy v f → ∀ s, (n.call v c).poll s = (.ended (.fault f), s))
  /-- A run that has started a node on such an input does not succeed, and if it fails because of
  the node, then with this failure. -/
  fails : ∀ s s' r schedule k, j.begin s = (.waiting r, s') →
    let g := (Stage.opening r s').along schedule k
    ∀ n ∈ j.plan.nodes, ∀ v f, .started n.id v ∈ g.log → n.CannotCopy v f →
      g.verdict ≠ .succeeded ∧ ∀ f', .failed n.id f' ∈ g.log →
        f' = .execution n.id n.agent.name "node task panicked"
  /-- Once its tasks have had their turn, such a node ends the run, unless it is cancelled or a
  failure was there before. -/
  ends : ∀ (r : Run) (s : Session) n v c f before after,
    r.tasks = before ++ ⟨n, n.call v c⟩ :: after → n.CannotCopy v f → ∃ earlier later,
      (r.taskTurn none s).1.ended = earlier ++ ⟨n, .fault f⟩ :: later ∧
      ((∀ o ∈ earlier, ∃ w, o.result = .ok w) →
        (r.taskTurn none s).2.isCancelled r.scope = false →
        ((r.taskTurn none s).1.ownTurn (r.taskTurn none s).2).1 =
          .ended (.error (.execution n.id n.agent.name "node task panicked")))
  /-- A run ends with outputs, or because an input is missing, it was cancelled, or a node failed by
  itself or faulted on the copy of its input. -/
  results : ∀ s schedule k result, j.result? s schedule k = some result →
    (∃ outputs, result = .ok outputs) ∨
    (∃ n ∈ j.plan.roots, j.inputs.get? n.id = none ∧
      result = .error (.execution n.id n.agent.name "missing input")) ∨
    result = .error Run.cancelled ∨
    ∃ n ∈ j.plan.nodes, ∃ v c, (∃ f, (n.call v c).MayEnd (.failure f) ∧ result = .error f) ∨
      ∃ f, n.CannotCopy v f ∧
        result = .error (.execution n.id n.agent.name "node task panicked")

variable {j : Job}

theorem ends_of_cannotCopy (r : Run) (s : Session) {n : Node} {v : Value} {c : Context} {f : Fault}
    {before after : List Task} (htasks : r.tasks = before ++ ⟨n, n.call v c⟩ :: after)
    (hcopy : n.CannotCopy v f) : ∃ earlier later,
      (r.taskTurn none s).1.ended = earlier ++ ⟨n, .fault f⟩ :: later ∧
      ((∀ o ∈ earlier, ∃ w, o.result = .ok w) →
        (r.taskTurn none s).2.isCancelled r.scope = false →
        ((r.taskTurn none s).1.ownTurn (r.taskTurn none s).2).1 = .ended (.error n.panicked)) := by
  have hends : ∀ s, ((n.call v c).poll s).1 = .ended (.fault f) := by
    intro s
    rw [hcopy.call_eq c]
    rfl
  obtain ⟨earlier, later, hpolled⟩ := @Task.exists_ended_of_pollWhere (Task.wakesWith none)
    ⟨n, n.call v c⟩ _ rfl hends before after s
  have hended : (r.taskTurn none s).1.ended = (r.ended ++ earlier) ++ ⟨n, .fault f⟩ :: later := by
    rw [append_assoc, ← hpolled, ← htasks]
    rfl
  refine ⟨r.ended ++ earlier, later, hended, fun hearlier huncancelled => ?_⟩
  exact Run.ownTurn_of_first_failure hearlier rfl hended huncancelled

/-- A run that does not get so far as to start a node lacks the input of a root. -/
theorem exists_missing_of_error {f : Failure} (h : j.rootInputs = .error f) :
    ∃ n ∈ j.plan.roots, j.inputs.get? n.id = none ∧ f = n.failure "missing input" := by
  obtain ⟨m, hm, hnone⟩ := exists_missing_of_rootInputs h
  cases hfind : j.plan.roots.find? (fun n => (j.inputs.get? n.id).isNone) with
  | none =>
      have hsome := find?_eq_none.mp hfind m hm
      simp [hnone] at hsome
  | some n =>
      have heq : j.rootInputs = .error (n.failure "missing input") := mapM_rootInput_of_find? hfind
      rw [h] at heq
      refine ⟨n, mem_of_find?_eq_some hfind, ?_, Except.error.inj heq⟩
      simpa using find?_some hfind

/-- Where the failure of a run comes from that a node has come to. -/
theorem CameTo.of_error {log : List Happening} {id : String} {f : Failure}
    (h : j.CameTo log id (.error f)) : ∃ n ∈ j.plan.nodes, ∃ v c,
      (n.call v c).MayEnd (.failure f) ∨ ∃ f', n.CannotCopy v f' ∧ f = n.panicked := by
  obtain ⟨n, hn, -, v, c, ending, -, hend, hresult⟩ := h
  refine ⟨n, hn, v, c, ?_⟩
  cases ending with
  | value d => cases hresult
  | failure f' =>
      cases hresult
      exact .inl hend
  | fault f' =>
      cases hresult
      exact .inr ⟨f', (n.mayEnd_fault_iff v c f').mp hend, rfl⟩

theorem results_of_result? (hplan : j.plan.Built) {s : Session} {schedule : Nat → Move} {k : Nat}
    {result : RunResult} (h : j.result? s schedule k = some result) :
    (∃ outputs, result = .ok outputs) ∨
    (∃ n ∈ j.plan.roots, j.inputs.get? n.id = none ∧
      result = .error (n.failure "missing input")) ∨
    result = .error Run.cancelled ∨
    ∃ n ∈ j.plan.nodes, ∃ v c, (∃ f, (n.call v c).MayEnd (.failure f) ∧ result = .error f) ∨
      ∃ f, n.CannotCopy v f ∧ result = .error n.panicked := by
  rcases j.result?_eq_some h with (⟨-, rfl⟩ | ⟨f, hinputs, rfl⟩) | ⟨r, s', hbegin, hresult⟩
  · exact .inl ⟨_, rfl⟩
  · obtain ⟨n, hn, hnone, rfl⟩ := exists_missing_of_error hinputs
    exact .inr (.inl ⟨n, hn, hnone, rfl⟩)
  · cases result with
    | ok outputs => exact .inl ⟨outputs, rfl⟩
    | error f =>
        rcases (Stage.result?_eq_error_iff _ _).mp hresult with ⟨n, hfailed⟩ | ⟨-, rfl⟩
        · have haccounts := Stage.Accounts.along hplan hbegin schedule k
          obtain ⟨n, hn, v, c, hend | ⟨f', hcopy, rfl⟩⟩ :=
            (haccounts.cameTo_of_failed hfailed).of_error
          · exact .inr (.inr (.inr ⟨n, hn, v, c, .inl ⟨f, hend, rfl⟩⟩))
          · exact .inr (.inr (.inr ⟨n, hn, v, c, .inr ⟨f', hcopy, rfl⟩⟩))
        · exact .inr (.inr (.inl rfl))

theorem containsFaults (hplan : j.plan.Built) : j.ContainsFaults where
  faults n _ v c f := by
    refine ⟨n.mayEnd_fault_iff v c f, fun hcopy s => ?_⟩
    rw [hcopy.call_eq c]
    rfl
  fails s s' r schedule k hbegin n hn v f hstarted hcopy := by
    have h := Stage.Accounts.along hplan hbegin schedule k
    constructor
    · intro hverdict
      obtain ⟨w, hw⟩ := h.exists_completed_of_succeeded hverdict hstarted
      exact h.not_completed_of_cannotCopy hplan hn hstarted hcopy w hw
    · intro f' hfailed
      obtain ⟨m, hverdict, hid⟩ := (h.failures n.id f').mp hfailed
      have hcame := hid ▸ h.cameTo_of_failed hverdict
      exact Except.error.inj (h.cameTo_of_cannotCopy hplan hn hstarted hcopy hcame)
  ends r s n v c f before after htasks hcopy := ends_of_cannotCopy r s htasks hcopy
  results s schedule k result h := results_of_result? hplan h

end Job

/-- Faults do not get out of agents and runs. In an agent under any layers of policies a fault of
the code at the base becomes a recoverable failure under the name by which that agent is executed,
and nothing tells it from such a failure of the code itself; a fault on the copy that a policy makes
of its input becomes one under the policy's own name. In a run, a node whose input cannot be copied
fails under the node's name, and nothing else makes its task fault. -/
theorem faults_contained :
    (∀ (ι ω : Kind) (t : Nest ι ω), t.ContainsFaults) ∧
    (∀ (ι ω : Kind) (ε : Type) (serial : Nat) (name : String)
      (f : Nat → Datum ι → Except Fault (Except ε (Datum ω))) (render : ε → Except Fault String)
      (input : Datum ι) (c : Context) (s : Session) (e : ε) (fault : Fault),
      f (s.callsOf serial) input = .ok (.error e) → render e = .error fault →
      ((Agent.ofFallible serial name f render).execute input c).poll s =
        (.ended (.failure (.execution "" name ("panicked: " ++ fault.message))),
          s.countCall serial)) ∧
    ∀ j : Job, j.plan.Built → j.ContainsFaults := by
  refine ⟨fun ι ω t => t.containsFaults, ?_, fun j hplan => j.containsFaults hplan⟩
  intro ι ω ε serial name f render input c s e fault hf hrender
  refine poll_captured ?_ name
  simp only [Agent.ofFallible, Agent.ofFunction, Call.poll, Session.perform, hf, hrender]

/-- An agent that fails and is tried twice, if its input can be copied. -/
def Nest.brittle : Nest .brittle .brittle :=
  .retrying (.base (.alwaysFail 0 "a" "no")) (.fixed 2 .zero)

/-- An input that survives one copy. -/
def Datum.worn : Datum .brittle := ⟨.brittle ⟨"x", [none], some .undescribed⟩, rfl⟩

/-- A plan of that agent alone. -/
def Plan.brittle : Plan := ⟨[⟨"n", .brittle, .brittle, Nest.brittle.agent⟩], [], [], ["n"]⟩

theorem Plan.built_brittle : Plan.brittle.Built :=
  ⟨⟨Plan.brittle.nodes, Plan.brittle.edges⟩, by rfl⟩

def Job.brittle : Job := ⟨.brittle, ⟨[("n", .brittle "x")]⟩, none, ⟨0, ⟨0, []⟩, none⟩⟩

theorem faults_contained_brittle :
    (Nest.brittle.agent.execute ⟨.brittle "x", rfl⟩ Job.brittle.context).poll .initial =
      (.ended (.failure (.execution "" "a" "panicked: brittle input cannot be cloned")),
        .initial) ∧
    (Nest.brittle.agent.execute .worn Job.brittle.context).Polled .initial []
      (.ended (.failure (.execution "" "a" "panicked: unknown panic payload")))
      { Session.initial with timers := 1 } ∧
    ((Agent.ofFallible 0 "b" (fun _ _ => .ok (.error ())) fun _ => .error .undescribed :
        Agent .text .text).execute (.ofText "x") Job.brittle.context).poll .initial =
      (.ended (.failure (.execution "" "b" "panicked: unknown panic payload")),
        Session.initial.countCall 0) ∧
    Job.brittle.result? .initial .inTurn 3 =
      some (.error (.execution "n" "a" "node task panicked")) ∧
    ∀ f, .failed "n" f ∈ ((Stage.opening ⟨.brittle, ⟨0, ⟨0, [0]⟩, none⟩,
        [(⟨"n", .brittle, .brittle, Nest.brittle.agent⟩, .brittle "x")], [], [], .empty⟩
        .second).along .inTurn 3).log →
      f = .execution "n" "a" "node task panicked" := by
  obtain ⟨hnests, hfallible, hjobs⟩ := faults_contained
  refine ⟨?_, ?_, ?_, by rfl, ?_⟩
  · exact (hnests .brittle .brittle .brittle).copies trivial ⟨.brittle "x", rfl⟩
      (.described "brittle input cannot be cloned") rfl Job.brittle.context .initial
  · exact (hnests .brittle .brittle (.base (.alwaysFail 0 "a" "no"))).spoils (.fixed 2 .zero) .worn
      Job.brittle.context .initial [] .undescribed _ (.once (by cbv))
  · exact hfallible .text .text Unit 0 "b" _ _ _ _ _ () .undescribed rfl rfl
  · exact ((hjobs .brittle Plan.built_brittle).fails .initial .second _ .inTurn 3 rfl
      ⟨"n", .brittle, .brittle, Nest.brittle.agent⟩ (mem_singleton_self _) (.brittle "x")
      (.described "brittle input cannot be cloned") (by decide) ⟨⟨.brittle "x", rfl⟩, rfl, rfl⟩).2

end Orchestration
