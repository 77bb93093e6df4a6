import Orchestration.Proofs.Policy.Origins
import Orchestration.Proofs.Run.Faults

/-! # Which node a failure names

A run that fails because of a node reports the failure of the node's agent with the node's name in
place of a blank one. The agent works under the name of its node from the start, so its time limits
report that name too, and names that are known already stay. -/

namespace Orchestration

open List Relation

/-! ## What is left of work that something follows -/

/-- While the work waits, what follows is still to come. -/
theorem Call.exists_of_remains_andThen {α : Type} {body call : Call α} {next : Ending α → Call α}
    (hnext : ∀ ending, ∃ ending', next ending = .finish ending')
    (h : (Call.andThen body next).Remains call) :
    ∃ rest, body.Remains rest ∧ call = rest.andThen next := by
  induction h with
  | refl => exact ⟨body, .refl, rfl⟩
  | tail _ hpoll ih =>
      obtain ⟨rest, hrest, rfl⟩ := ih
      obtain ⟨s, s', hpoll⟩ := hpoll
      cases hbody : rest.poll s with
      | mk state s₁ =>
          cases state with
          | waiting rest' =>
              rw [poll_andThen_of_waiting hbody] at hpoll
              cases hpoll
              exact ⟨rest', hrest.poll hbody, rfl⟩
          | ended ending =>
              obtain ⟨ending', hending⟩ := hnext ending
              rw [poll_andThen_of_ended hbody, hending] at hpoll
              cases hpoll

/-! ## The failure of a node -/

namespace Failure

variable {f : Failure}

/-- A name that is known already, and an invalid plan, are left as they are. -/
theorem atNode_of_known (hknown : f.node? ≠ some "") (id : String) : f.atNode id = f := by
  cases f with
  | execution node agent reason =>
      have hnode : node ≠ "" := fun heq => hknown (congrArg some heq)
      simp [atNode, hnode]
  | invalidPlan reason => rfl
  | timeout node limit =>
      have hnode : node ≠ "" := fun heq => hknown (congrArg some heq)
      simp [atNode, hnode]

/-- A blank name is replaced by that of the node. -/
theorem node?_atNode {id : String} (h : ∀ known, f.node? = some known → known = "" ∨ known = id)
    {known : String} (hknown : (f.atNode id).node? = some known) : known = id := by
  cases f with
  | execution node agent reason =>
      have hnode := h node rfl
      simp only [atNode, node?, Option.some.injEq] at hknown
      grind
  | invalidPlan reason => cases hknown
  | timeout node limit =>
      have hnode := h node rfl
      simp only [atNode, node?, Option.some.injEq] at hknown
      grind

end Failure

namespace Node

variable {n : Node} {v : Value} {c : Context} {call : Call (Datum n.output)} {s : Session}
  {f : Failure}

/-- Where the failure comes from with which a poll of the node's call ends. -/
inductive Source (n : Node) (v : Value) (c : Context) (call : Call (Datum n.output)) (s : Session) :
    Failure → Prop where
  /-- The value has another kind than the agent takes. -/
  | mismatch (hv : v.kind ≠ n.input) :
      Source n v c call s
        (.execution n.id n.agent.name ("input type mismatch: expected " ++ n.input.name))
  /-- The value cannot be copied. -/
  | uncopied {fault : Fault} (hv : n.CannotCopy v fault) :
      Source n v c call s (.execution n.id n.agent.name "node task panicked")
  /-- The agent has failed in this very poll. -/
  | agent {d copy : Datum n.input} {rest : Call (Datum n.output)} {f : Failure}
      (hv : v.as? n.input = some d) (hcopy : d.copy 0 = .ok copy)
      (hrest : (n.agent.execute copy c).Remains rest)
      (hcall : call = rest.andThen n.ascribe) (hpoll : (rest.poll s).1 = .ended (.failure f)) :
      Source n v c call s (f.atNode n.id)

theorem exists_ascribe_eq (n : Node) {α : Type} (ending : Ending α) :
    ∃ ending', n.ascribe ending = .finish ending' := by
  cases ending <;> exact ⟨_, rfl⟩

/-- A poll that ends a node's call with a failure. -/
theorem source_of_poll (hcall : (n.call v c).Remains call) {ending : Ending (Datum n.output)}
    (hpoll : (call.poll s).1 = .ended ending) (hresult : n.resultOf ending = .error f) :
    n.Source v c call s f := by
  unfold Node.call at hcall
  cases hv : v.as? n.input with
  | none =>
      rw [hv] at hcall
      rw [Call.remains_finish hcall] at hpoll
      cases hpoll
      cases hresult
      exact .mismatch ((v.as?_eq_none_iff _).mp hv)
  | some d =>
      rw [hv] at hcall
      dsimp only at hcall
      unfold withCopy at hcall
      cases hcopy : d.copy 0 with
      | error fault =>
          rw [hcopy] at hcall
          rw [Call.remains_finish hcall] at hpoll
          cases hpoll
          cases hresult
          exact .uncopied ⟨d, hv, hcopy⟩
      | ok copy =>
          rw [hcopy] at hcall
          obtain ⟨rest, hrest, rfl⟩ := Call.exists_of_remains_andThen n.exists_ascribe_eq hcall
          cases hbody : rest.poll s with
          | mk state s₁ =>
              cases state with
              | waiting rest' =>
                  rw [Call.poll_andThen_of_waiting hbody] at hpoll
                  cases hpoll
              | ended ending' =>
                  rw [Call.poll_andThen_of_ended hbody] at hpoll
                  cases ending' with
                  | value w =>
                      cases hpoll
                      cases hresult
                  | failure f' =>
                      cases hpoll
                      cases hresult
                      exact .agent hv hcopy hrest rfl (congrArg Prod.fst hbody)
                  | fault fault => exact absurd (hrest.mayEnd hbody) (not_mayEnd_fault _ _ fault)

end Node

/-! ## Along a run -/

namespace Stage

variable {g : Stage}

/-- Each task is what is left of its node's call under a context of the node's name. -/
def TasksAtNodes (g : Stage) : Prop :=
  ∀ t ∈ g.run.tasks, ∃ v c, .started t.node.id v ∈ g.log ∧ c.node = some t.node.id ∧
    (t.node.call v c).Remains t.call

theorem tasksAtNodes_of_change {g' : Stage} (h : g.TasksAtNodes) (hchange : Change g g') :
    g'.TasksAtNodes := by
  have hmore : ∀ log, g.log ⊆ log → ∀ t ∈ g.run.tasks, ∃ v c, .started t.node.id v ∈ log ∧
      c.node = some t.node.id ∧ (t.node.call v c).Remains t.call := by
    intro log hlog t ht
    obtain ⟨v, c, hstarted, hcall⟩ := h t ht
    exact ⟨v, c, hlog hstarted, hcall⟩
  cases hchange with
  | meanwhile => exact h
  | @start n v ready hgoes hready hroom =>
      intro t ht
      rcases mem_append.mp ht with ht | ht
      · exact hmore _ (subset_append_left _ _) t ht
      · obtain rfl := mem_singleton.mp ht
        exact ⟨v, _, by simp [startNext], rfl, .refl⟩
  | @wait i t call s hgoes ht hpoll =>
      intro t' ht'
      rcases mem_or_eq_of_mem_set ht' with ht' | rfl
      · exact h t' ht'
      · obtain ⟨v, c, hstarted, hnode, hcall⟩ := h t (mem_of_getElem? ht)
        exact ⟨v, c, hstarted, hnode, hcall.poll hpoll⟩
  | finish => exact fun t' ht' => h t' (mem_of_mem_eraseIdx ht')
  | complete => exact hmore _ (subset_append_left _ _)
  | fail => exact hmore _ (subset_append_left _ _)
  | succeed => exact h
  | cancel => exact h

theorem tasksAtNodes_along {j : Job} {s s' : Session} {r : Run}
    (hbegin : j.begin s = (.waiting r, s')) (schedule : Nat → Move) (k : Nat) :
    ((Stage.opening r s').along schedule k).TasksAtNodes := by
  obtain ⟨ready, -, rfl, rfl⟩ := j.begin_eq_waiting hbegin
  exact invariant_along (by simp [TasksAtNodes, opening]) (fun g g' => tasksAtNodes_of_change)
    schedule k

/-- An outcome is that of a task that was polled. -/
theorem exists_poll_of_mem_outcomes {schedule : Nat → Move} {k : Nat} {o : Outcome}
    (h : o ∈ g.outcomes schedule k) : ∃ l < k, ∃ t ∈ (g.along schedule l).run.tasks, ∃ ending,
      (t.call.poll (g.along schedule l).session).1 = .ended ending ∧
      o.untimed = (t.node, t.node.resultOf ending) := by
  induction k with
  | zero => cases h
  | succ k ih =>
      rcases mem_append.mp h with h | h
      · obtain ⟨l, hl, hpoll⟩ := ih h
        exact ⟨l, Nat.lt_succ_of_lt hl, hpoll⟩
      · unfold newOutcomes at h
        split at h
        · split at h
          · cases h
          · rename_i t ht
            split at h
            · rename_i ending hpoll
              obtain rfl := mem_singleton.mp h
              exact ⟨k, Nat.lt_succ_self k, t, mem_of_getElem? ht, ending, hpoll, rfl⟩
            · cases h
        · cases h

/-- The failure that ends a run is an outcome. -/
theorem exists_outcome_of_failed (hopen : g.verdict = .goesOn) (hnone : g.run.ended = [])
    {schedule : Nat → Move} {k : Nat} {n : Node} {f : Failure}
    (hfailed : (g.along schedule k).verdict = .failed n f) :
    ∃ o ∈ g.outcomes schedule k, o.untimed = (n, .error f) := by
  obtain ⟨settled, rest, houtcomes, -, hrest⟩ := g.exists_settled hopen hnone schedule k
  rw [unsettled, hfailed, Verdict.untimed, singleton_append] at hrest
  obtain ⟨o, later, rfl, ho, -⟩ := map_eq_cons_iff.mp hrest
  exact ⟨o, by simp [houtcomes], ho⟩

end Stage

namespace Job

/-- How a run names the nodes because of which it fails. -/
structure Attributes (j : Job) : Prop where
  /-- A root without an input is named. -/
  missing : ∀ s s' f, j.begin s = (.ended (.error f), s') →
    ∃ n ∈ j.plan.roots, j.inputs.get? n.id = none ∧
      f = .execution n.id n.agent.name "missing input"
  /-- A run that ends with a failure fails because of a node, with just that failure, or was
  cancelled. -/
  returns : ∀ s s' r schedule k f, j.begin s = (.waiting r, s') →
    let g := (Stage.opening r s').along schedule k
    (j.result? s schedule k = some (.error f) ↔
      (∃ n, g.verdict = .failed n f) ∨ (g.verdict = .cancelled ∧ f = Run.cancelled))
  /-- A run that fails because of a node has polled its task, which was started under a context of
  the node's name, and that poll has ended with the failure. -/
  source : ∀ s s' r schedule k n f, j.begin s = (.waiting r, s') →
    ((Stage.opening r s').along schedule k).verdict = .failed n f →
    n ∈ j.plan.nodes ∧ ∃ l < k,
      let g := (Stage.opening r s').along schedule l
      ∃ v c call, ⟨n, call⟩ ∈ g.run.tasks ∧ .started n.id v ∈ g.log ∧ c.node = some n.id ∧
        n.Source v c call g.session f
  /-- Under such a context, a failure of an agent arises in one of its parts, which is called under
  a context of the same name, and nothing else changes it. -/
  arises : ∀ n ∈ j.plan.nodes, ∀ t : Nest n.input n.output, t.agent = n.agent →
    ∀ c input f, c.node = some n.id → (n.agent.execute input c).MayEnd (.failure f) →
    ∃ part c', t.Reaches c part c' ∧ c'.node = some n.id ∧ part.Raises c' f
  /-- A time limit at whatever depth names the node and its own duration when its time is over. -/
  late : ∀ n ∈ j.plan.nodes, ∀ t : Nest n.input n.output, t.agent = n.agent →
    ∀ c inner limit c', c.node = some n.id → t.Reaches c (.timingOut inner limit) c' →
    ∀ input s, ∃ own body,
      let deadline : Timer := ⟨s.now + limit.waitMillis, s.timers⟩
      ((inner.agent.timingOut limit).start input c').poll s =
        (Call.within deadline own (.failure (.timeout n.id limit)) body).poll
          ((s.derive c').2.setTimer limit.waitMillis).2 ∧
      ∀ (work rest : Call (Datum n.output)) (s₁ s₂ : Session),
        work.poll s₁ = (.waiting rest, s₂) → deadline.due ≤ s₂.now →
        ((Call.within deadline own (.failure (.timeout n.id limit)) work).poll s₁).1 =
          .ended (.failure (.timeout n.id limit))
  /-- If the code at the base names no node, every failure that names one names the node because of
  which the run fails. -/
  named : ∀ s s' r schedule k n f, j.begin s = (.waiting r, s') →
    ((Stage.opening r s').along schedule k).verdict = .failed n f →
    ∀ t : Nest n.input n.output, t.agent = n.agent →
    (∀ a ∈ t.bases, ∀ input c f', c.node = some n.id → (a.start input c).MayEnd (.failure f') →
      ∀ id, f'.node? = some id → id = "") →
    ∀ id, f.node? = some id → id = n.id
  /-- A blank name is filled in, and nothing else is changed. -/
  blank : ∀ id agent reason limit,
    (Failure.execution "" agent reason).atNode id = .execution id agent reason ∧
    (Failure.timeout "" limit).atNode id = .timeout id limit
  /-- A name that is there stays, and so does an invalid plan. -/
  known : ∀ f id, Failure.node? f ≠ some "" → f.atNode id = f

variable {j : Job}

theorem exists_source (hplan : j.plan.Built) {s s' : Session} {r : Run} {schedule : Nat → Move}
    {k : Nat} {n : Node} {f : Failure} (hbegin : j.begin s = (.waiting r, s'))
    (hfailed : ((Stage.opening r s').along schedule k).verdict = .failed n f) :
    n ∈ j.plan.nodes ∧ ∃ l < k,
      let g := (Stage.opening r s').along schedule l
      ∃ v c call, ⟨n, call⟩ ∈ g.run.tasks ∧ .started n.id v ∈ g.log ∧ c.node = some n.id ∧
        n.Source v c call g.session f := by
  have hnone : (Stage.opening r s').run.ended = [] := by
    obtain ⟨ready, -, rfl, rfl⟩ := j.begin_eq_waiting hbegin
    rfl
  obtain ⟨o, ho, huntimed⟩ := Stage.exists_outcome_of_failed rfl hnone hfailed
  obtain ⟨l, hl, t, ht, ending, hpoll, hresult⟩ := Stage.exists_poll_of_mem_outcomes ho
  obtain ⟨rfl, hresult⟩ := Prod.mk.inj (huntimed.symm.trans hresult)
  obtain ⟨v, c, hstarted, hnode, hcall⟩ := Stage.tasksAtNodes_along hbegin schedule l t ht
  refine ⟨((Stage.Accounts.along hplan hbegin schedule l).tasks t ht).1, l, hl, v, c, t.call, ht,
    hstarted, hnode, ?_⟩
  exact Node.source_of_poll hcall hpoll hresult.symm

/-- A run that fails because of a node reports what its agent has failed with, with the name of the
node in place of a blank one and nothing else changed. The code and the time limits of the agent work
under contexts of that name, so whatever they fail with, it names this node unless the code has named
another one or the plan is invalid. -/
theorem failures_attributed (hplan : j.plan.Built) : j.Attributes where
  missing s s' f hbegin := by
    rcases begin_eq_ended hbegin with ⟨-, hresult⟩ | ⟨f', hinputs, hresult⟩
    · cases hresult
    · obtain rfl := Except.error.inj hresult
      exact exists_missing_of_error hinputs
  returns s s' r schedule k f hbegin := by
    rw [result?, hbegin]
    exact Stage.result?_eq_error_iff _ f
  source s s' r schedule k n f hbegin hfailed := exists_source hplan hbegin hfailed
  arises n _ t ht c input f hnode hend := by
    rw [← ht] at hend
    obtain ⟨part, c', hreaches, hraises⟩ := t.exists_raises hend
    exact ⟨part, c', hreaches, hreaches.node_eq.trans hnode, hraises⟩
  late n _ t _ c inner limit c' hnode hreaches input s := by
    obtain ⟨own, body, -, hpoll⟩ := hreaches.poll_late hnode input s
    refine ⟨own, body, hpoll, fun work rest s₁ s₂ hwork hdue => ?_⟩
    rw [(Call.poll_within_of_due hwork hdue).1]
  named s s' r schedule k n f hbegin hfailed t ht hblank id hid := by
    obtain ⟨-, l, -, v, c, call, -, -, hnode, hsource⟩ := exists_source hplan hbegin hfailed
    cases hsource with
    | mismatch => exact (Option.some.inj hid).symm
    | uncopied => exact (Option.some.inj hid).symm
    | @agent d copy rest f' hv hcopy hrest hcall hpoll =>
        refine Failure.node?_atNode (fun known hknown => ?_) hid
        have hend : (t.agent.execute copy c).MayEnd (.failure f') := by
          rw [ht]
          exact hrest.mayEnd (Prod.ext hpoll rfl)
        obtain ⟨part, c', hreaches, hraises⟩ := t.exists_raises hend
        have hnode' : c'.node = some n.id := hreaches.node_eq.trans hnode
        cases hraises with
        | code h => exact .inl (hblank _ hreaches.mem_bases _ c' f' hnode' h known hknown)
        | fault => exact .inl (Option.some.inj hknown).symm
        | late inner limit =>
            rw [hnode'] at hknown
            exact .inr (Option.some.inj hknown).symm
  blank id agent reason limit := ⟨by simp [Failure.atNode], by simp [Failure.atNode]⟩
  known f id h := f.atNode_of_known h id

end Job

/-- An agent that fails under a time limit. -/
def Nest.failing : Nest .text .text :=
  .timingOut (.base (.alwaysFail 0 "a" "no")) (.ofMillis 3)

/-- A plan of that agent alone. -/
def Plan.failing : Plan := ⟨[⟨"n", .text, .text, Nest.failing.agent⟩], [], [], ["n"]⟩

theorem Plan.built_failing : Plan.failing.Built :=
  ⟨⟨Plan.failing.nodes, Plan.failing.edges⟩, by rfl⟩

def Job.failing : Job := ⟨.failing, ⟨[("n", .text "x")]⟩, none, ⟨0, ⟨0, []⟩, none⟩⟩

theorem Job.failures_attributed_failing :
    Job.failing.result? .initial .inTurn 3 = some (.error (.execution "n" "a" "no")) ∧
    (∀ id, (Failure.execution "n" "a" "no").node? = some id → id = "n") ∧
    ∃ own body, (Nest.failing.agent.start (.ofText "x") ⟨0, ⟨0, []⟩, some "n"⟩).poll .initial =
      (Call.within ⟨3, 0⟩ own (.failure (.timeout "n" (.ofMillis 3))) body).poll
        ((Session.initial.derive ⟨0, ⟨0, []⟩, some "n"⟩).2.setTimer 3).2 := by
  have h := Job.failures_attributed (j := .failing) Plan.built_failing
  refine ⟨by rfl, ?_, ?_⟩
  · refine h.named .initial .second _ .inTurn 3 ⟨"n", .text, .text, Nest.failing.agent⟩ _ rfl rfl
      Nest.failing rfl ?_
    intro a ha input c f' _ hend id hid
    obtain rfl := List.mem_singleton.mp ha
    cases Call.mayEnd_finish hend
    exact (Option.some.inj hid).symm
  · obtain ⟨own, body, hpoll, -⟩ := h.late ⟨"n", .text, .text, Nest.failing.agent⟩
      (mem_singleton_self _) Nest.failing rfl ⟨0, ⟨0, []⟩, some "n"⟩ _ _ _ rfl (.self _ _)
      (.ofText "x") .initial
    exact ⟨own, body, hpoll⟩

end Orchestration
