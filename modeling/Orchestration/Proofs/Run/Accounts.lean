import Orchestration.Proofs.Run.History

/-! # The accounts of a run

How the state of a run and its history belong together, at every stage. -/

namespace Orchestration

open List

/-! ## Setting up -/

namespace Job

/-- A root with its input. -/
def rootInput (j : Job) (n : Node) : Except Failure (Node × Value) :=
  match j.inputs.get? n.id with
  | some v => .ok (n, v)
  | none => .error (n.failure "missing input")

theorem mapM_rootInput_eq_ok (j : Job) {roots : List Node} {entries : List (Node × Value)}
    (h : roots.mapM j.rootInput = .ok entries) :
    entries.map (·.1) = roots ∧ ∀ e ∈ entries, j.inputs.get? e.1.id = some e.2 := by
  induction roots generalizing entries with
  | nil =>
      obtain rfl : entries = [] := by simpa [pure, Except.pure, eq_comm] using h
      simp
  | cons n roots ih =>
      rw [mapM_cons] at h
      cases hn : j.inputs.get? n.id with
      | none => simp [rootInput, hn, bind, Except.bind] at h
      | some v =>
          cases hrest : roots.mapM j.rootInput with
          | error f => simp [rootInput, hn, hrest, bind, Except.bind] at h
          | ok rest =>
              obtain rfl : (n, v) :: rest = entries := by
                simpa [rootInput, hn, hrest, bind, Except.bind, pure, Except.pure] using h
              obtain ⟨hroots, hinputs⟩ := ih hrest
              refine ⟨by simp [hroots], ?_⟩
              simpa [hn] using hinputs

theorem rootInputs_eq_ok (j : Job) {entries : List (Node × Value)}
    (h : j.rootInputs = .ok entries) :
    entries.map (·.1) = j.plan.roots ∧ ∀ e ∈ entries, j.inputs.get? e.1.id = some e.2 :=
  j.mapM_rootInput_eq_ok h

theorem begin_eq_waiting (j : Job) {s s' : Session} {r : Run} (h : j.begin s = (.waiting r, s')) :
    ∃ ready, j.rootInputs = .ok ready ∧
      r = ⟨j, (s.derive j.context).1, ready, [], [], .empty⟩ ∧ s' = (s.derive j.context).2 := by
  unfold begin at h
  split at h
  · cases h
  · dsimp only at h
    split at h
    · cases h
    · rename_i ready hready
      simp only [Prod.mk.injEq, Progress.waiting.injEq] at h
      exact ⟨ready, hready, h.1.symm, h.2.symm⟩

end Job

/-! ## The invariant -/

/-- The node whose failure has ended the run. -/
def Verdict.failedIds : Verdict → List String
  | failed n _ => [n.id]
  | _ => []

namespace Stage

def taskIds (g : Stage) : List String := g.run.tasks.map (·.node.id)

def endedIds (g : Stage) : List String := g.run.ended.map (·.node.id)

/-- The accounts of a run of a job. -/
structure Accounts (j : Job) (g : Stage) : Prop where
  job : g.run.job = j
  known : ∀ e ∈ g.run.ready, e.1 ∈ j.plan.nodes
  queue : readiedIn g.log = startedIn g.log ++ g.run.ready.map fun e => (e.1.id, e.2)
  supplied : ∀ id v, .readied id v ∈ g.log ↔ j.Supplied g.log id v
  readiedOnce : ((readiedIn g.log).map (·.1)).Nodup
  flights : ((startedIn g.log).map (·.1)).Perm
    (g.taskIds ++ g.endedIds ++ (completedIn g.log).map (·.1) ++ g.verdict.failedIds)
  tasks : ∀ t ∈ g.run.tasks, t.node ∈ j.plan.nodes ∧
    ∃ v c, .started t.node.id v ∈ g.log ∧ (t.node.call v c).Remains t.call
  ended : ∀ e ∈ g.run.ended, e.node ∈ j.plan.nodes ∧
    ∃ v c, .started e.node.id v ∈ g.log ∧ (e.node.call v c).MayEnd e.ending
  outputs : g.run.outputs.entries = completedIn g.log
  failures : ∀ id f, .failed id f ∈ g.log ↔ ∃ n, g.verdict = .failed n f ∧ n.id = id
  idle : g.verdict = .succeeded → g.run.ready = [] ∧ g.run.tasks = [] ∧ g.run.ended = []
  causal : j.Causal g.log

namespace Accounts

variable {j : Job} {g : Stage}

theorem no_failure (h : g.Accounts j) (hgoes : g.verdict = .goesOn) (id : String) (f : Failure) :
    .failed id f ∉ g.log := by
  rw [h.failures, hgoes]
  rintro ⟨n, hn, -⟩
  cases hn

theorem startedOnce (h : g.Accounts j) : ((startedIn g.log).map (·.1)).Nodup := by
  have hnodup := h.readiedOnce
  rw [h.queue, map_append] at hnodup
  exact hnodup.of_append_left

/-- No node is in two places after its start. -/
theorem nodup_flights (h : g.Accounts j) :
    (g.taskIds ++ g.endedIds ++ (completedIn g.log).map (·.1) ++ g.verdict.failedIds).Nodup :=
  h.flights.nodup_iff.mp h.startedOnce

theorem nodup_taskIds (h : g.Accounts j) : g.taskIds.Nodup := by
  have hnodup := h.nodup_flights
  rw [append_assoc, append_assoc] at hnodup
  exact hnodup.of_append_left

/-- What holds of the tasks still holds when more has happened. -/
theorem tasks_mono (h : g.Accounts j) {log : List Happening} (hsub : g.log ⊆ log) :
    ∀ t ∈ g.run.tasks, t.node ∈ j.plan.nodes ∧
      ∃ v c, .started t.node.id v ∈ log ∧ (t.node.call v c).Remains t.call := by
  intro t ht
  obtain ⟨hnode, v, c, hstarted, hcall⟩ := h.tasks t ht
  exact ⟨hnode, v, c, hsub hstarted, hcall⟩

theorem ended_mono (h : g.Accounts j) {log : List Happening} (hsub : g.log ⊆ log) :
    ∀ e ∈ g.run.ended, e.node ∈ j.plan.nodes ∧
      ∃ v c, .started e.node.id v ∈ log ∧ (e.node.call v c).MayEnd e.ending := by
  intro e he
  obtain ⟨hnode, v, c, hstarted, hcall⟩ := h.ended e he
  exact ⟨hnode, v, c, hsub hstarted, hcall⟩

theorem readied_of_started (h : g.Accounts j) {id : String} {v : Value}
    (hmem : .started id v ∈ g.log) : .readied id v ∈ g.log := by
  rw [← mem_readiedIn, h.queue]
  exact mem_append_left _ ((mem_startedIn _ _ _).mpr hmem)

theorem readied_of_mem_ready (h : g.Accounts j) {e : Node × Value} (he : e ∈ g.run.ready) :
    .readied e.1.id e.2 ∈ g.log := by
  rw [← mem_readiedIn, h.queue]
  exact mem_append_right _ (mem_map.mpr ⟨e, he, rfl⟩)

/-- What is ready has not been started. -/
theorem not_started (h : g.Accounts j) {e : Node × Value} (he : e ∈ g.run.ready) (w : Value) :
    .started e.1.id w ∉ g.log := by
  intro hmem
  have hnodup := h.readiedOnce
  rw [h.queue, map_append] at hnodup
  refine disjoint_of_nodup_append hnodup (mem_map_of_mem ((mem_startedIn _ _ _).mpr hmem)) ?_
  exact mem_map.mpr ⟨(e.1.id, e.2), mem_map.mpr ⟨e, he, rfl⟩, rfl⟩

/-! ## Each change keeps the accounts -/

theorem opening (hplan : j.plan.Built) {s s' : Session} {r : Run}
    (hbegin : j.begin s = (.waiting r, s')) : (Stage.opening r s').Accounts j := by
  obtain ⟨ready, hready, rfl, rfl⟩ := j.begin_eq_waiting hbegin
  obtain ⟨hroots, hinputs⟩ := j.rootInputs_eq_ok hready
  have hids : (ready.map (·.1.id)).Nodup := by
    have hsub : (j.plan.roots.map (·.id)).Sublist j.plan.ids := filter_sublist.map _
    rw [← hroots, map_map] at hsub
    exact hplan.nodup_ids.sublist hsub
  have hroot : ∀ e ∈ ready, e.1 ∈ j.plan.roots := by
    intro e he
    rw [← hroots]
    exact mem_map_of_mem he
  have hsupplied : ∀ e ∈ ready, j.Supplied [] e.1.id e.2 := fun e he =>
    .inl ⟨e.1, hroot e he, rfl, hinputs e he⟩
  constructor
  case job => rfl
  case known => exact fun e he => (mem_filter.mp (hroot e he)).1
  case queue => simp [Stage.opening]
  case supplied =>
    intro id v
    simp only [Stage.opening, mem_allReadied]
    constructor
    · rintro ⟨e, he, heq⟩
      cases heq
      exact (hsupplied e he).mono (nil_subset _)
    · rintro (⟨n, hn, rfl, hv⟩ | ⟨producer, -, hmem⟩)
      · rw [← hroots] at hn
        obtain ⟨e, he, rfl⟩ := mem_map.mp hn
        obtain rfl : e.2 = v := by simpa [hinputs e he] using hv
        exact ⟨e, he, rfl⟩
      · simp [mem_allReadied] at hmem
  case readiedOnce => simpa [Stage.opening, Function.comp_def] using hids
  case flights => simp [Stage.opening, taskIds, endedIds, Verdict.failedIds]
  case tasks => simp [Stage.opening]
  case ended => simp [Stage.opening]
  case outputs => simp [Stage.opening, NodeValues.empty]
  case failures => simp [Stage.opening, mem_allReadied]
  case idle => simp [Stage.opening]
  case causal =>
    simpa [Stage.opening] using
      j.causal_nil.append_allReadied (by simp) ready hids (by simp) hsupplied

theorem start (h : g.Accounts j) {n : Node} {v : Value} {ready : List (Node × Value)}
    (hready : g.run.ready = (n, v) :: ready) (hgoes : g.verdict = .goesOn) :
    (g.startNext n v ready).Accounts j := by
  have hnode : n ∈ j.plan.nodes := h.known (n, v) (by simp [hready])
  have hqueue : readiedIn g.log =
      startedIn g.log ++ (n.id, v) :: ready.map fun e => (e.1.id, e.2) := by
    simpa [hready] using h.queue
  have hpermits : j.Permits g.log (.started n.id v) := by
    refine ⟨h.not_started (e := (n, v)) (by simp [hready]), ?_⟩
    exact h.readied_of_mem_ready (e := (n, v)) (by simp [hready])
  have hlog : (g.startNext n v ready).log = g.log ++ [.started n.id v] := rfl
  constructor
  case job => exact h.job
  case known => exact fun e he => h.known e (by rw [hready]; exact mem_cons_of_mem _ he)
  case queue =>
    rw [hlog, readiedIn_append, startedIn_append, hqueue]
    simp [startNext, readiedIn, startedIn]
  case supplied =>
    intro id w
    simpa [hlog, Job.Supplied] using h.supplied id w
  case readiedOnce =>
    simpa [hlog, readiedIn_append, readiedIn] using h.readiedOnce
  case flights =>
    have hflights := h.flights
    rw [perm_iff_count] at hflights ⊢
    intro id
    have hid := hflights id
    simp only [startedIn_append, completedIn_append, startNext, taskIds, endedIds] at hid ⊢
    simp only [startedIn, completedIn, map_append, count_append, filterMap_cons, filterMap_nil,
      map_cons, map_nil, append_nil] at hid ⊢
    omega
  case tasks =>
    intro t ht
    rcases mem_append.mp ht with ht | ht
    · exact h.tasks_mono (subset_append_left _ _) t ht
    · obtain rfl := mem_singleton.mp ht
      exact ⟨hnode, v, _, by simp [hlog], .refl⟩
  case ended => exact h.ended_mono (subset_append_left _ _)
  case outputs =>
    rw [hlog, completedIn_append]
    simpa [startNext, completedIn] using h.outputs
  case failures => simpa [startNext] using h.failures
  case idle => simp [startNext, hgoes]
  case causal => exact h.causal.concat (h.no_failure hgoes) hpermits

theorem wait (h : g.Accounts j) (hgoes : g.verdict = .goesOn) {i : Nat} {t : Task}
    {call : Call (Datum t.node.output)} {s : Session} (ht : g.run.tasks[i]? = some t)
    (hpoll : t.call.poll g.session = (.waiting call, s)) :
    Accounts j { g with
      run := { g.run with tasks := g.run.tasks.set i ⟨t.node, call⟩ }
      session := s } := by
  have hmem : t ∈ g.run.tasks := mem_of_getElem? ht
  have hids : (g.run.tasks.set i ⟨t.node, call⟩).map (·.node.id) = g.taskIds :=
    map_set_of_eq (·.node.id) ⟨t.node, call⟩ ht rfl
  refine ⟨h.job, h.known, h.queue, h.supplied, h.readiedOnce, ?flights, ?tasks, h.ended,
    h.outputs, h.failures, ?idle, h.causal⟩
  case flights =>
    rw [taskIds, hids]
    exact h.flights
  case tasks =>
    intro t' ht'
    rcases mem_or_eq_of_mem_set ht' with ht' | rfl
    · exact h.tasks t' ht'
    · obtain ⟨hnode, v, c, hstarted, hcall⟩ := h.tasks t hmem
      exact ⟨hnode, v, c, hstarted, hcall.poll hpoll⟩
  case idle => simp [hgoes]

theorem finish (h : g.Accounts j) (hgoes : g.verdict = .goesOn) {i : Nat} {t : Task}
    {ending : Ending (Datum t.node.output)} {s : Session} (ht : g.run.tasks[i]? = some t)
    (hpoll : t.call.poll g.session = (.ended ending, s)) :
    Accounts j { g with
      run := { g.run with
        tasks := g.run.tasks.eraseIdx i
        ended := g.run.ended ++ [⟨t.node, ending⟩] }
      session := s } := by
  have hmem : t ∈ g.run.tasks := mem_of_getElem? ht
  refine ⟨h.job, h.known, h.queue, h.supplied, h.readiedOnce, ?flights, ?tasks, ?ended,
    h.outputs, h.failures, ?idle, h.causal⟩
  case flights =>
    refine h.flights.trans ?_
    have hids := (cons_eraseIdx_perm ht).map (·.node.id)
    rw [perm_iff_count] at hids ⊢
    intro id
    have hid := hids id
    simp only [taskIds, endedIds, map_append, count_append, map_cons, map_nil,
      count_cons, count_nil] at hid ⊢
    omega
  case tasks => exact fun t' ht' => h.tasks t' (mem_of_mem_eraseIdx ht')
  case ended =>
    intro e he
    rcases mem_append.mp he with he | he
    · exact h.ended e he
    · obtain rfl := mem_singleton.mp he
      obtain ⟨hnode, v, c, hstarted, hcall⟩ := h.tasks t hmem
      exact ⟨hnode, v, c, hstarted, hcall.mayEnd hpoll⟩
  case idle => simp [hgoes]

/-- A node whose ending is still to be observed has not completed. -/
theorem not_completed (h : g.Accounts j) {e : EndedTask} (he : e ∈ g.run.ended) (w : Value) :
    .completed e.node.id w ∉ g.log := by
  intro hmem
  have hnodup := (nodup_append.mp h.nodup_flights).1
  exact disjoint_of_nodup_append hnodup (mem_append_right _ (mem_map_of_mem he))
    (mem_map_of_mem ((mem_completedIn _ _ _).mpr hmem))

/-- The consumers of a node that has not completed have not become ready. -/
theorem not_readied (h : g.Accounts j) {producer consumer : String}
    (hparent : j.plan.parent? consumer = some producer)
    (hnone : ∀ w, .completed producer w ∉ g.log) (w : Value) : .readied consumer w ∉ g.log := by
  rw [h.supplied]
  rintro (⟨n, hn, rfl, -⟩ | ⟨producer', hparent', hmem⟩)
  · have hroot := (mem_filter.mp hn).2
    simp [hparent] at hroot
  · obtain rfl : producer = producer' := by simpa [hparent] using hparent'
    exact hnone w hmem

theorem complete (h : g.Accounts j) (hplan : j.plan.Built) (hgoes : g.verdict = .goesOn)
    {e : EndedTask} {rest : List EndedTask} {output : Value} (hended : g.run.ended = e :: rest)
    (hresult : e.result = .ok output) :
    Accounts j { g with
      run := { g.run with ended := rest }.complete e.node output
      log := g.log ++ g.run.job.plan.completion e.node output } := by
  have he : e ∈ g.run.ended := by simp [hended]
  obtain ⟨hnode, v, c, hstarted, hcall⟩ := h.ended e he
  have hnone := h.not_completed he
  have hcame : j.CameTo g.log e.node.id (.ok output) :=
    ⟨e.node, hnode, rfl, v, c, e.ending, hstarted, hcall, hresult⟩
  have hconsumer : ∀ n ∈ j.plan.consumers e.node.id,
      n ∈ j.plan.nodes ∧ j.plan.parent? n.id = some e.node.id :=
    fun n hn => (hplan.mem_consumers_iff _ n).mp hn
  have hnew : ∀ n ∈ j.plan.consumers e.node.id, ∀ w, .readied n.id w ∉ g.log :=
    fun n hn => h.not_readied (hconsumer n hn).2 hnone
  have hready : ({ g.run with ended := rest }.complete e.node output).ready =
      g.run.ready ++ (j.plan.consumers e.node.id).map (·, output) := by
    rw [← h.job]
    rfl
  have hmore := subset_append_left g.log (j.plan.completion e.node output)
  rw [h.job]
  constructor
  case job => exact h.job
  case known =>
    intro e' he'
    rw [hready] at he'
    rcases mem_append.mp he' with he' | he'
    · exact h.known e' he'
    · obtain ⟨n, hn, rfl⟩ := mem_map.mp he'
      exact (hconsumer n hn).1
  case queue =>
    rw [hready, readiedIn_append, startedIn_append, h.queue]
    simp
  case supplied =>
    intro id w
    rw [j.supplied_append_completion_iff, ← h.supplied, ← hplan.exists_consumer_iff,
      ← mem_readiedIn, readiedIn_append, mem_append, mem_readiedIn, readiedIn_completion, mem_map]
    simp only [Prod.mk.injEq, ← and_assoc, exists_and_right, eq_comm]
  case readiedOnce =>
    rw [readiedIn_append, map_append, nodup_append']
    refine ⟨h.readiedOnce, ?_, ?_⟩
    · simpa [Function.comp_def] using hplan.nodup_map_id_consumers e.node.id
    intro id hold hnext
    obtain ⟨⟨id, w⟩, hentry, rfl⟩ := mem_map.mp hold
    obtain ⟨n, hn, rfl⟩ : ∃ n ∈ j.plan.consumers e.node.id, n.id = id := by simpa using hnext
    exact hnew n hn w ((mem_readiedIn _ _ _).mp hentry)
  case flights =>
    have hflights := h.flights
    rw [perm_iff_count] at hflights ⊢
    intro id
    have hid := hflights id
    simp only [startedIn_append, startedIn_completion, completedIn_append, completedIn_completion,
      taskIds, endedIds, hended, Run.complete] at hid ⊢
    simp only [map_append, count_append, map_cons, map_nil, count_cons, count_nil] at hid ⊢
    omega
  case tasks => exact h.tasks_mono hmore
  case ended => exact fun e' he' => h.ended_mono hmore e' (hended ▸ mem_cons_of_mem _ he')
  case outputs =>
    have hkey : e.node.id ∉ g.run.outputs.entries.keys := by
      rw [h.outputs]
      intro hmem
      obtain ⟨⟨id, w⟩, hmem, rfl⟩ := mem_map.mp hmem
      exact hnone w ((mem_completedIn _ _ _).mp hmem)
    rw [completedIn_append, completedIn_completion, ← h.outputs]
    exact Entries.set_of_notMem _ _ _ hkey
  case failures =>
    simpa [Plan.completion, mem_allReadied] using h.failures
  case idle => simp [hgoes]
  case causal => exact h.causal.append_completion hplan (h.no_failure hgoes) ⟨hnone, hcame⟩ hnew

theorem fail (h : g.Accounts j) (hgoes : g.verdict = .goesOn) {e : EndedTask}
    {rest : List EndedTask} {f : Failure} (hended : g.run.ended = e :: rest)
    (hresult : e.result = .error f) :
    Accounts j { g with
      run := { g.run with ended := rest }
      verdict := .failed e.node f
      session := { g.run with ended := rest }.halt g.session
      log := g.log ++ [.failed e.node.id f] } := by
  have he : e ∈ g.run.ended := by simp [hended]
  obtain ⟨hnode, v, c, hstarted, hcall⟩ := h.ended e he
  have hpermits : j.Permits g.log (.failed e.node.id f) :=
    ⟨h.not_completed he, e.node, hnode, rfl, v, c, e.ending, hstarted, hcall, hresult⟩
  have hreadied : readiedIn (g.log ++ [.failed e.node.id f]) = readiedIn g.log := by
    simp [readiedIn]
  have hstarts : startedIn (g.log ++ [.failed e.node.id f]) = startedIn g.log := by
    simp [startedIn]
  have hcompleted : completedIn (g.log ++ [.failed e.node.id f]) = completedIn g.log := by
    simp [completedIn]
  constructor
  case job => exact h.job
  case known => exact h.known
  case queue => rw [hreadied, hstarts, h.queue]
  case supplied =>
    intro id w
    simpa [Job.Supplied] using h.supplied id w
  case readiedOnce => rw [hreadied]; exact h.readiedOnce
  case flights =>
    have hflights := h.flights
    rw [perm_iff_count] at hflights ⊢
    intro id
    have hid := hflights id
    simp only [hstarts, hcompleted, taskIds, endedIds, hended, hgoes, Verdict.failedIds] at hid ⊢
    simp only [count_append, map_cons, count_cons, count_nil] at hid ⊢
    omega
  case tasks => exact h.tasks_mono (subset_append_left _ _)
  case ended =>
    intro e' he'
    exact h.ended_mono (subset_append_left _ _) e' (hended ▸ mem_cons_of_mem _ he')
  case outputs => rw [hcompleted]; exact h.outputs
  case failures =>
    intro id f'
    have hold := h.no_failure hgoes id f'
    simp only [mem_append, hold, false_or, mem_singleton, Happening.failed.injEq,
      Verdict.failed.injEq]
    constructor
    · rintro ⟨rfl, rfl⟩
      exact ⟨e.node, ⟨rfl, rfl⟩, rfl⟩
    · rintro ⟨n, ⟨rfl, rfl⟩, rfl⟩
      exact ⟨rfl, rfl⟩
  case idle => simp
  case causal => exact h.causal.concat (h.no_failure hgoes) hpermits

theorem succeed (h : g.Accounts j) (hgoes : g.verdict = .goesOn) (hready : g.run.ready = [])
    (htasks : g.run.tasks = []) (hended : g.run.ended = []) :
    Accounts j { g with verdict := .succeeded, session := g.run.halt g.session } := by
  refine ⟨h.job, h.known, h.queue, h.supplied, h.readiedOnce, ?_, h.tasks, h.ended, h.outputs,
    ?_, fun _ => ⟨hready, htasks, hended⟩, h.causal⟩
  · simpa [hgoes, Verdict.failedIds, taskIds, endedIds] using h.flights
  · simpa [hgoes] using h.failures

theorem cancel (h : g.Accounts j) (hgoes : g.verdict = .goesOn) :
    Accounts j { g with verdict := .cancelled, session := g.run.halt g.session } := by
  refine ⟨h.job, h.known, h.queue, h.supplied, h.readiedOnce, ?_, h.tasks, h.ended, h.outputs,
    ?_, by simp, h.causal⟩
  · simpa [hgoes, Verdict.failedIds, taskIds, endedIds] using h.flights
  · simpa [hgoes] using h.failures

theorem change (hplan : j.plan.Built) {g g' : Stage} (h : g.Accounts j) (hchange : Change g g') :
    g'.Accounts j := by
  cases hchange with
  | meanwhile s => exact ⟨h.job, h.known, h.queue, h.supplied, h.readiedOnce, h.flights, h.tasks,
      h.ended, h.outputs, h.failures, h.idle, h.causal⟩
  | start hgoes hready hroom => exact h.start hready hgoes
  | wait hgoes ht hpoll => exact h.wait hgoes ht hpoll
  | finish hgoes ht hpoll => exact h.finish hgoes ht hpoll
  | complete hgoes hended hresult => exact h.complete hplan hgoes hended hresult
  | fail hgoes hended hresult => exact h.fail hgoes hended hresult
  | succeed hgoes hready htasks hended => exact h.succeed hgoes hready htasks hended
  | cancel hgoes hcancelled => exact h.cancel hgoes

/-- The accounts of a run are in order at every stage. -/
theorem along (hplan : j.plan.Built) {s s' : Session} {r : Run}
    (hbegin : j.begin s = (.waiting r, s')) (schedule : Nat → Move) (n : Nat) :
    ((Stage.opening r s').along schedule n).Accounts j :=
  invariant_along (P := Accounts j) (opening hplan hbegin)
    (fun _ _ h hchange => h.change hplan hchange) schedule n

end Accounts

end Stage

end Orchestration
