import Mathlib.Tactic.Ring
import Orchestration.Proofs.Call.Punctual
import Orchestration.Proofs.Plan.Paths
import Orchestration.Proofs.Run.Capacity
import Orchestration.Proofs.Run.Kinds

/-! # The pace of a run

In a run whose nodes all succeed after fixed waits, what is left of each node's wait says when it
will end. A path can only be as far as time has passed. Without a limit every path is that far; with
one, all time that is lost on a path was spent with as many nodes at work as the limit allows. -/

namespace Orchestration

open List Relation

/-! ## What passes and what is left -/

namespace Job

/-- The plan was built, each root has an input of the kind that it takes, and every node succeeds
after its wait. -/
structure Punctual (j : Job) (wait : String → Nat) : Prop where
  built : j.plan.Built
  inputs : ∀ n ∈ j.plan.roots, (j.inputs.typed? n.id n.input).isSome
  nodes : ∀ n ∈ j.plan.nodes, n.SucceedsAfter (wait n.id)

theorem Punctual.exists_input {j : Job} {wait : String → Nat} (h : j.Punctual wait) :
    ∀ n ∈ j.plan.roots, ∃ v, j.inputs.get? n.id = some v ∧ v.kind = n.input := by
  intro n hn
  simpa [NodeValues.typed?, Option.isSome_filter, Option.any_eq_true] using h.inputs n hn

theorem Punctual.exists_input_of_root {j : Job} {wait : String → Nat} (h : j.Punctual wait) :
    ∀ n ∈ j.plan.roots, ∃ v, j.inputs.get? n.id = some v := by
  intro n hn
  obtain ⟨v, hv, -⟩ := h.exists_input n hn
  exact ⟨v, hv⟩

/-- With so much of its wait left, the path to the end of a node is as far as it can be: without a
limit it has never stood still, and with one it has stood still only while as many nodes were at
work as are allowed. -/
def Advanced (j : Job) (wait left : String → Nat) (elapsed : Nat) (id : String) : Prop :=
  match j.maxConcurrency with
  | none => elapsed + left id ≤ j.plan.lead wait id + wait id
  | some m => max 1 m * elapsed + j.plan.total left + (max 1 m - 1) * left id ≤
      j.plan.total wait + (max 1 m - 1) * (j.plan.lead wait id + wait id)

/-- Never were more nodes at work than are allowed, and some path is as far as it can be. -/
structure Spent (j : Job) (wait left : String → Nat) (elapsed : Nat) : Prop where
  left_le : ∀ id, left id ≤ wait id
  worked : ∀ m, j.maxConcurrency = some m →
    j.plan.total wait ≤ j.plan.total left + max 1 m * elapsed
  path : ∃ id ∈ j.plan.ids, j.Advanced wait left elapsed id

variable {j : Job} {wait left : String → Nat} {elapsed : Nat} {id producer : String}

/-- When a node is done, its consumers are as far as it is. -/
theorem Advanced.consumer (h : j.Advanced wait left elapsed producer) (hplan : j.plan.Built)
    (hparent : j.plan.parent? id = some producer) (hdone : left producer = 0)
    (hleft : left id = wait id) : j.Advanced wait left elapsed id := by
  have hlead : j.plan.lead wait id = j.plan.lead wait producer + wait producer :=
    hplan.lead_of_parent hparent
  unfold Advanced at h ⊢
  split at h
  · omega
  · rw [hdone] at h
    rw [hleft, hlead, Nat.mul_add _ _ (wait id)]
    omega

/-- A path stays as far as it can be while its node is at work, and while it waits for that with
as many others at work as are allowed. -/
theorem Advanced.later {left' : String → Nat} {count amount : Nat}
    (h : j.Advanced wait left elapsed id)
    (htotal : j.plan.total left' + count * amount = j.plan.total left)
    (hpasses : 0 < count ∧ left' id + amount = left id ∨
      left' id = left id ∧ ∃ m, j.maxConcurrency = some m ∧ count = max 1 m) :
    j.Advanced wait left' (elapsed + amount) id := by
  unfold Advanced at h ⊢
  cases hlimit : j.maxConcurrency with
  | none =>
      rw [hlimit] at h
      rcases hpasses with ⟨-, hwork⟩ | ⟨-, m, hm, -⟩
      · dsimp only at h ⊢
        omega
      · simp [hlimit] at hm
  | some m =>
      rw [hlimit] at h
      dsimp only at h ⊢
      obtain ⟨k, hk⟩ : ∃ k, max 1 m = k + 1 := ⟨max 1 m - 1, by omega⟩
      rw [hk, Nat.add_sub_cancel] at h ⊢
      have hclock : (k + 1) * (elapsed + amount) = (k + 1) * elapsed + k * amount + amount := by
        ring
      rw [hclock]
      rcases hpasses with ⟨hcount, hwork⟩ | ⟨hwaits, m', hm', hfull⟩
      · have hsome : amount ≤ count * amount := Nat.le_mul_of_pos_left amount hcount
        rw [← hwork, Nat.mul_add] at h
        omega
      · obtain rfl : m = m' := by simpa [hlimit] using hm'
        rw [hfull, hk, Nat.succ_mul] at htotal
        rw [hwaits]
        omega

/-- At the start all roots are as far as they can be. -/
theorem advanced_of_root (hroot : j.plan.parent? id = none) : j.Advanced wait wait 0 id := by
  have hlead : j.plan.lead wait id = 0 := Plan.lead_of_root hroot
  unfold Advanced
  split <;> simp [hlead]

theorem Spent.opening (hplan : j.plan.Built) (hnodes : j.plan.nodes ≠ []) :
    j.Spent wait wait 0 := by
  obtain ⟨n, roots, hroots⟩ := exists_cons_of_ne_nil (hplan.roots_ne_nil hnodes)
  obtain ⟨hn, hroot⟩ := mem_filter.mp (hroots ▸ mem_cons_self : n ∈ j.plan.roots)
  exact ⟨fun _ => Nat.le_refl _, by simp, n.id, mem_map_of_mem hn,
    advanced_of_root (by simpa using hroot)⟩

/-- A run never takes longer than all waits together. -/
theorem Spent.elapsed_le (h : j.Spent wait left elapsed) (hplan : j.plan.Built) :
    elapsed ≤ j.plan.total wait := by
  obtain ⟨id, hid, hadvanced⟩ := h.path
  have hle : j.plan.lead wait id + wait id ≤ j.plan.total wait := hplan.le_total hid
  unfold Advanced at hadvanced
  split at hadvanced
  · omega
  · rename_i m hlimit
    obtain ⟨k, hk⟩ : ∃ k, max 1 m = k + 1 := ⟨max 1 m - 1, by omega⟩
    have hpath := Nat.mul_le_mul_left k hle
    rw [hk, Nat.add_sub_cancel] at hadvanced
    have hall : (k + 1) * elapsed ≤ (k + 1) * j.plan.total wait := by
      rw [Nat.succ_mul k (j.plan.total wait)]
      omega
    exact Nat.le_of_mul_le_mul_left hall (Nat.succ_pos k)

/-- How long a run takes: without a limit as long as the critical path, and with one as long as a
greedy schedule on so many machines may. -/
structure Makespan (j : Job) (wait : String → Nat) (elapsed : Nat) : Prop where
  unlimited : j.maxConcurrency = none → elapsed = j.plan.criticalPath wait
  limited : ∀ m, j.maxConcurrency = some m → j.plan.criticalPath wait ≤ elapsed ∧
    j.plan.total wait ≤ max 1 m * elapsed ∧
    max 1 m * elapsed ≤ j.plan.total wait + (max 1 m - 1) * j.plan.criticalPath wait
  single : ∀ m ≤ 1, j.maxConcurrency = some m → elapsed = j.plan.total wait

theorem Makespan.of_empty (hnodes : j.plan.nodes = []) : j.Makespan wait 0 := by
  have htotal : j.plan.total wait = 0 := by simp [Plan.total, Plan.ids, hnodes]
  have hcritical : j.plan.criticalPath wait = 0 := by
    simp [Plan.criticalPath, Plan.ids, hnodes]
  exact ⟨fun _ => hcritical.symm, by simp [htotal, hcritical], fun _ _ _ => htotal.symm⟩

/-- When nothing is left, the path that never stood still bounds the time that has passed. -/
theorem Spent.makespan (h : j.Spent wait left elapsed) (hleft : ∀ id ∈ j.plan.ids, left id = 0)
    (hreached : ∀ id ∈ j.plan.ids, j.plan.lead wait id + wait id ≤ elapsed) :
    j.Makespan wait elapsed := by
  have hcritical := Plan.criticalPath_le hreached
  have hnone : j.plan.total left = 0 := by
    rw [Plan.total, map_congr_left hleft]
    simp
  obtain ⟨id, hid, hadvanced⟩ := h.path
  have hpath : j.plan.lead wait id + wait id ≤ j.plan.criticalPath wait :=
    Plan.le_criticalPath hid
  unfold Advanced at hadvanced
  rw [hleft id hid] at hadvanced
  have hlimited : ∀ m, j.maxConcurrency = some m → j.plan.criticalPath wait ≤ elapsed ∧
      j.plan.total wait ≤ max 1 m * elapsed ∧
      max 1 m * elapsed ≤ j.plan.total wait + (max 1 m - 1) * j.plan.criticalPath wait := by
    intro m hlimit
    rw [hlimit] at hadvanced
    dsimp only at hadvanced
    have hworked := h.worked m hlimit
    have hlost := Nat.mul_le_mul_left (max 1 m - 1) hpath
    omega
  refine ⟨fun hlimit => ?unlimited, hlimited, fun m hm hlimit => ?single⟩
  case unlimited =>
    rw [hlimit] at hadvanced
    dsimp only at hadvanced
    omega
  case single =>
    have hbounds := hlimited m hlimit
    rw [Nat.max_eq_left hm] at hbounds
    omega

end Job

namespace Stage

/-- The stage of a run so long after its start, when so much of each node's wait is left. -/
structure Paced (j : Job) (wait left : String → Nat) (start elapsed : Nat) (g : Stage) : Prop where
  clock : g.session.now = start + elapsed
  tasks : ∀ t ∈ g.run.tasks, t.call.DueIn (left t.node.id) (start + elapsed)
  ended : ∀ e ∈ g.run.ended, left e.node.id = 0 ∧ ∃ v, e.ending = .value v
  unfailed : ∀ n f, g.verdict ≠ .failed n f
  unstarted : ∀ id, (∀ v, .started id v ∉ g.log) → left id = wait id
  completed : ∀ id w, .completed id w ∈ g.log → left id = 0
  reached : ∀ id v, .readied id v ∈ g.log → j.plan.lead wait id + wait id ≤ elapsed + left id
  advanced : ∀ id v, .readied id v ∈ g.log → (∀ w, .completed id w ∉ g.log) →
    j.Advanced wait left elapsed id

namespace Paced

variable {j : Job} {wait left : String → Nat} {start elapsed : Nat} {g g' : Stage}

/-! ## At one time -/

theorem opening {s s' : Session} {r : Run}
    (hbegin : j.begin s = (.waiting r, s')) : (Stage.opening r s').Paced j wait wait s.now 0 := by
  obtain ⟨ready, hready, rfl, rfl⟩ := j.begin_eq_waiting hbegin
  have hroot : ∀ id v, .readied id v ∈ (Stage.opening ⟨j, (s.derive j.context).1, ready, [], [],
      .empty⟩ (s.derive j.context).2).log → j.plan.parent? id = none := by
    intro id v hmem
    obtain ⟨e, he, heq⟩ := (mem_allReadied _ _).mp hmem
    have hn : e.1 ∈ j.plan.roots := by
      rw [← (j.rootInputs_eq_ok hready).1]
      exact mem_map_of_mem he
    obtain ⟨rfl, -⟩ := Happening.readied.inj heq
    simpa using (mem_filter.mp hn).2
  constructor
  case clock => rfl
  case tasks => simp [Stage.opening]
  case ended => simp [Stage.opening]
  case unfailed => simp [Stage.opening]
  case unstarted => simp
  case completed => simp [Stage.opening, mem_allReadied]
  case reached =>
    intro id v hmem
    rw [Plan.lead_of_root (hroot id v hmem)]
  case advanced => exact fun id v hmem _ => Job.advanced_of_root (hroot id v hmem)

theorem startNext (h : g.Paced j wait left start elapsed) (haccounts : g.Accounts j)
    (hjob : j.Punctual wait) {n : Node} {v : Value} {ready : List (Node × Value)}
    (hready : g.run.ready = (n, v) :: ready) :
    (g.startNext n v ready).Paced j wait left start elapsed := by
  have hmem : (n, v) ∈ g.run.ready := by simp [hready]
  have hn : n ∈ j.plan.nodes := haccounts.known _ hmem
  have hlog : (g.startNext n v ready).log = g.log ++ [.started n.id v] := rfl
  have hkind : v.kind = n.input := by
    have hreadied := haccounts.readied_of_mem_ready hmem
    rcases haccounts.kind_of_readied hjob.built hn hreadied with ⟨hroot, hv⟩ | hkind
    · obtain ⟨w, hw, hkind⟩ := hjob.exists_input n hroot
      obtain rfl : v = w := Option.some.inj (hv.symm.trans hw)
      exact hkind
    · exact hkind
  constructor
  case clock => exact h.clock
  case tasks =>
    intro t ht
    rcases mem_append.mp ht with ht | ht
    · exact h.tasks t ht
    · obtain rfl := mem_singleton.mp ht
      dsimp only
      rw [h.unstarted n.id (haccounts.not_started hmem)]
      exact (hjob.nodes n hn v _ hkind).dueIn _
  case ended => exact h.ended
  case unfailed => exact h.unfailed
  case unstarted =>
    exact fun id hnone => h.unstarted id fun w hw => hnone w (mem_append_left _ hw)
  case completed => simpa [hlog] using h.completed
  case reached => simpa [hlog] using h.reached
  case advanced => simpa [hlog] using h.advanced

theorem complete (h : g.Paced j wait left start elapsed) (haccounts : g.Accounts j)
    (hplan : j.plan.Built) {e : EndedTask} {rest : List EndedTask} {output : Value}
    (hended : g.run.ended = e :: rest) :
    Paced j wait left start elapsed { g with
      run := { g.run with ended := rest }.complete e.node output
      log := g.log ++ g.run.job.plan.completion e.node output } := by
  have he : e ∈ g.run.ended := by simp [hended]
  have hzero := (h.ended e he).1
  obtain ⟨-, v, c, hstarted, -⟩ := haccounts.ended e he
  have hreadied := haccounts.readied_of_started hstarted
  have hnone := haccounts.not_completed he
  -- a consumer of the node has not been started, and its producer is just done
  have hconsumer : ∀ id w, .readied id w ∈ g.log ++ j.plan.completion e.node output →
      .readied id w ∈ g.log ∨ j.plan.parent? id = some e.node.id ∧ left id = wait id := by
    intro id w hmem
    refine (mem_append.mp hmem).imp_right fun hnew => ?_
    obtain ⟨m, hm, hid⟩ : ∃ m ∈ j.plan.consumers e.node.id, m.id = id := by
      have hnew := (mem_readiedIn _ _ _).mpr hnew
      rw [readiedIn_completion, mem_map] at hnew
      obtain ⟨m, hm, heq⟩ := hnew
      exact ⟨m, hm, (Prod.mk.inj heq).1⟩
    subst hid
    have hparent := ((hplan.mem_consumers_iff _ m).mp hm).2
    refine ⟨hparent, h.unstarted m.id fun w hw => ?_⟩
    exact haccounts.not_readied hparent hnone w (haccounts.readied_of_started hw)
  have hstarted_iff : ∀ id w, .started id w ∈ g.log ++ j.plan.completion e.node output ↔
      .started id w ∈ g.log := by
    intro id w
    rw [← mem_startedIn, startedIn_append, startedIn_completion, append_nil, mem_startedIn]
  have hcompleted_iff : ∀ id w, .completed id w ∈ g.log ++ j.plan.completion e.node output ↔
      .completed id w ∈ g.log ∨ id = e.node.id ∧ w = output := by
    intro id w
    rw [← mem_completedIn, completedIn_append, completedIn_completion, mem_append, mem_completedIn]
    simp
  rw [haccounts.job]
  constructor
  case clock => exact h.clock
  case tasks => exact h.tasks
  case ended => exact fun e' he' => h.ended e' (hended ▸ mem_cons_of_mem _ he')
  case unfailed => exact h.unfailed
  case unstarted =>
    exact fun id hnone => h.unstarted id fun w hw => hnone w ((hstarted_iff id w).mpr hw)
  case completed =>
    intro id w hmem
    rcases (hcompleted_iff id w).mp hmem with hold | ⟨rfl, -⟩
    · exact h.completed id w hold
    · exact hzero
  case reached =>
    intro id w hmem
    rcases hconsumer id w hmem with hold | ⟨hparent, hleft⟩
    · exact h.reached id w hold
    · have hproducer := h.reached e.node.id v hreadied
      rw [hplan.lead_of_parent hparent, hleft]
      omega
  case advanced =>
    intro id w hmem hnotDone
    have hnotBefore : ∀ w, .completed id w ∉ g.log := fun w hw =>
      hnotDone w ((hcompleted_iff id w).mpr (.inl hw))
    rcases hconsumer id w hmem with hold | ⟨hparent, hleft⟩
    · exact h.advanced id w hold hnotBefore
    · exact (h.advanced e.node.id v hreadied hnone).consumer hplan hparent hzero hleft

theorem change (h : g.Paced j wait left start elapsed) (haccounts : g.Accounts j)
    (hjob : j.Punctual wait) (hchange : ChangeAtOnce g g') :
    g'.Paced j wait left start elapsed := by
  obtain ⟨hchange, hnow⟩ := hchange
  have hclock := hnow.trans h.clock
  cases hchange with
  | meanwhile s => exact { h with clock := hclock }
  | start hgoes hready hroom => exact h.startNext haccounts hjob hready
  | wait hgoes ht hpoll =>
      refine { h with clock := hclock, tasks := fun t' ht' => ?_ }
      rcases mem_or_eq_of_mem_set ht' with ht' | rfl
      · exact h.tasks t' ht'
      · exact ((h.tasks _ (mem_of_getElem? ht)).asleep h.clock hpoll).dueIn
  | finish hgoes ht hpoll =>
      refine { h with clock := hclock, tasks := fun t' ht' => ?tasks, ended := fun e he => ?ended }
      case tasks => exact h.tasks t' (mem_of_mem_eraseIdx ht')
      case ended =>
        rcases mem_append.mp he with he | he
        · exact h.ended e he
        · obtain rfl := mem_singleton.mp he
          exact (h.tasks _ (mem_of_getElem? ht)).of_ended h.clock hpoll
  | complete hgoes hended hresult => exact h.complete haccounts hjob.built hended
  | @fail e rest f hgoes hended hresult =>
      -- what has ended has succeeded
      obtain ⟨-, v, hvalue⟩ := h.ended e (by simp [hended])
      rw [EndedTask.result, hvalue] at hresult
      cases hresult
  | succeed hgoes hready htasks hended =>
      exact { h with clock := hclock, unfailed := by simp }
  | cancel hgoes hcancelled => exact { h with clock := hclock, unfailed := by simp }

/-- At one time the pace is kept, whatever changes come. -/
theorem changes (h : g.Paced j wait left start elapsed) (haccounts : g.Accounts j)
    (hjob : j.Punctual wait) (hchanges : ReflTransGen ChangeAtOnce g g') :
    g'.Paced j wait left start elapsed := by
  have hboth : g'.Accounts j ∧ g'.Paced j wait left start elapsed := by
    induction hchanges with
    | refl => exact ⟨haccounts, h⟩
    | tail _ hchange ih =>
        exact ⟨ih.1.change hjob.built hchange.1, ih.2.change ih.1 hjob hchange⟩
  exact hboth.2

end Paced

/-! ## As time passes -/

namespace Accounts

variable {j : Job} {g : Stage} {id : String}

theorem exists_started_of_task (h : g.Accounts j) (hid : id ∈ g.taskIds) :
    ∃ v, .started id v ∈ g.log := by
  obtain ⟨t, ht, rfl⟩ := mem_map.mp hid
  obtain ⟨-, v, -, hstarted, -⟩ := h.tasks t ht
  exact ⟨v, hstarted⟩

theorem not_completed_of_task (h : g.Accounts j) (hid : id ∈ g.taskIds) (w : Value) :
    .completed id w ∉ g.log := by
  intro hmem
  have hnodup := (nodup_append.mp h.nodup_flights).1
  exact disjoint_of_nodup_append hnodup (mem_append_left _ hid)
    (mem_map_of_mem ((mem_completedIn _ _ _).mpr hmem))

theorem taskIds_subset (h : g.Accounts j) : g.taskIds ⊆ j.plan.ids := by
  intro id hid
  obtain ⟨t, ht, rfl⟩ := mem_map.mp hid
  exact mem_map_of_mem (h.tasks t ht).1

theorem exists_started_of_readied (h : g.Accounts j) (hready : g.run.ready = [])
    (hreadied : id ∈ (readiedIn g.log).map (·.1)) : ∃ v, .started id v ∈ g.log := by
  rw [h.queue, hready, map_nil, append_nil] at hreadied
  obtain ⟨⟨id, v⟩, hmem, rfl⟩ := mem_map.mp hreadied
  exact ⟨v, (mem_startedIn _ _ _).mp hmem⟩

/-- When all endings are observed, a node that has become ready and is not done is still ready, or
it is at work. -/
theorem ready_or_task (h : g.Accounts j) (hgoes : g.verdict = .goesOn) (hended : g.run.ended = [])
    {v : Value} (hreadied : .readied id v ∈ g.log) (hnone : ∀ w, .completed id w ∉ g.log) :
    (∃ e ∈ g.run.ready, e.1.id = id) ∨ id ∈ g.taskIds := by
  have hmem := mem_map_of_mem (f := Prod.fst) ((mem_readiedIn _ _ _).mpr hreadied)
  rw [h.perm_readied.mem_iff] at hmem
  have hnotDone : id ∉ g.run.outputs.entries.keys := by
    rw [h.mem_keys_iff]
    exact fun ⟨w, hw⟩ => hnone w hw
  simpa [occupants, endedIds, hended, hgoes, Verdict.failedIds, hnotDone] using hmem

end Accounts

/-- What is left after so many more milliseconds in which the tasks were at work. -/
def leftAfter (g : Stage) (left : String → Nat) (amount : Nat) (id : String) : Nat :=
  if id ∈ g.taskIds then left id - amount else left id

/-- The run goes on with nothing to observe and nothing that it could start, and all its tasks are
asleep. -/
structure AtRest (j : Job) (left : String → Nat) (now : Nat) (g : Stage) : Prop where
  goes : g.verdict = .goesOn
  observed : g.run.ended = []
  fills : j.Fills g.run
  busy : 0 < g.run.tasks.length
  tasks : ∀ t ∈ g.run.tasks, t.call.Asleep (left t.node.id) now

namespace AtRest

variable {j : Job} {wait left : String → Nat} {start elapsed amount : Nat} {g : Stage}
  {id : String} (hrest : g.AtRest j left (start + elapsed))

include hrest

theorem inFlight_eq : g.run.inFlight = g.run.tasks.length := by
  rw [Run.inFlight, hrest.observed, length_nil, Nat.zero_add]

variable (hquiet : ∀ t ∈ g.run.tasks, ∀ u ∈ t.call.nextTimer, start + elapsed + amount ≤ u.due)

include hquiet

theorem le_left (hid : id ∈ g.taskIds) : amount ≤ left id := by
  obtain ⟨t, ht, rfl⟩ := mem_map.mp hid
  obtain ⟨u, hu, -, hdue⟩ := (hrest.tasks t ht).timer
  have hle := hquiet t ht u hu
  omega

theorem leftAfter_add (hid : id ∈ g.taskIds) : g.leftAfter left amount id + amount = left id := by
  rw [leftAfter, if_pos hid, Nat.sub_add_cancel (hrest.le_left hquiet hid)]

variable (haccounts : g.Accounts j)

include haccounts

theorem total_leftAfter (hplan : j.plan.Built) : j.plan.total (g.leftAfter left amount) +
    g.run.tasks.length * amount = j.plan.total left := by
  have htotal := hplan.total_sub haccounts.nodup_taskIds haccounts.taskIds_subset
    fun id hid => hrest.le_left hquiet hid
  rwa [taskIds, length_map] at htotal

variable (h : g.Paced j wait left start elapsed)

include h

/-- Every path that is not done is still as far as it can be. -/
theorem advanced (hplan : j.plan.Built) {v : Value} (hreadied : .readied id v ∈ g.log)
    (hnone : ∀ w, .completed id w ∉ g.log) :
    j.Advanced wait (g.leftAfter left amount) (elapsed + amount) id := by
  refine (h.advanced id v hreadied hnone).later (hrest.total_leftAfter hquiet haccounts hplan) ?_
  by_cases htask : id ∈ g.taskIds
  · exact .inl ⟨hrest.busy, hrest.leftAfter_add hquiet htask⟩
  · obtain ⟨e, he, -⟩ :=
      (haccounts.ready_or_task hrest.goes hrest.observed hreadied hnone).resolve_right htask
    obtain ⟨m, hm, hfull⟩ := hrest.fills.full.resolve_left (ne_nil_of_mem he)
    exact .inr ⟨if_neg htask, m, hm, hrest.inFlight_eq ▸ hfull⟩

/-- The run is paced when its tasks have something to do again. -/
theorem paced (hplan : j.plan.Built) {s : Session} (hs : s.now = start + (elapsed + amount)) :
    Paced j wait (g.leftAfter left amount) start (elapsed + amount) { g with session := s } := by
  have hother : ∀ id, id ∉ g.taskIds → g.leftAfter left amount id = left id :=
    fun id hid => if_neg hid
  constructor
  case clock => exact hs
  case tasks =>
    intro t ht
    have hsucceeds := (hrest.tasks t ht).succeeds
    have hprompt := hquiet t ht
    have hadd := hrest.leftAfter_add hquiet (mem_map_of_mem ht)
    have hdue : start + (elapsed + amount) + g.leftAfter left amount t.node.id =
        start + elapsed + left t.node.id := by omega
    rw [← hdue] at hsucceeds
    rw [Nat.add_assoc] at hprompt
    exact hsucceeds.dueIn hprompt
  case ended => simp [hrest.observed]
  case unfailed => exact h.unfailed
  case unstarted =>
    intro id hnone
    rw [hother id fun hid => ?_, h.unstarted id hnone]
    obtain ⟨v, hv⟩ := haccounts.exists_started_of_task hid
    exact hnone v hv
  case completed =>
    intro id w hmem
    rw [hother id fun hid => haccounts.not_completed_of_task hid w hmem, h.completed id w hmem]
  case reached =>
    intro id v hreadied
    have hreached := h.reached id v hreadied
    by_cases hid : id ∈ g.taskIds
    · have hadd := hrest.leftAfter_add hquiet hid
      omega
    · rw [hother id hid]
      omega
  case advanced =>
    exact fun id v hreadied hnone => hrest.advanced hquiet haccounts h hplan hreadied hnone

/-- So is the time that has passed. -/
theorem spent (hplan : j.plan.Built) (hspent : j.Spent wait left elapsed) :
    j.Spent wait (g.leftAfter left amount) (elapsed + amount) := by
  have htotal := hrest.total_leftAfter hquiet haccounts hplan
  refine ⟨fun id => ?left_le, fun m hm => ?worked, ?path⟩
  case left_le =>
    have hle := hspent.left_le id
    unfold leftAfter
    split <;> omega
  case worked =>
    have hworked := hspent.worked m hm
    have hallows := hrest.fills.allows m hm
    rw [hrest.inFlight_eq] at hallows
    have hwork := Nat.mul_le_mul_right amount hallows
    rw [Nat.mul_add]
    omega
  case path =>
    obtain ⟨t, ht⟩ := exists_mem_of_length_pos hrest.busy
    have htask : t.node.id ∈ g.taskIds := mem_map_of_mem ht
    obtain ⟨v, hstarted⟩ := haccounts.exists_started_of_task htask
    exact ⟨t.node.id, haccounts.taskIds_subset htask, hrest.advanced hquiet haccounts h hplan
      (haccounts.readied_of_started hstarted) (haccounts.not_completed_of_task htask)⟩

/-- Without a limit, what has not been started by now will not be until the paths to it are done,
which is not before some task has something to do again. -/
theorem le_lead (hjob : j.Punctual wait) (hunlimited : j.maxConcurrency = none)
    (hid : id ∈ j.plan.ids) (hnone : ∀ v, .started id v ∉ g.log) :
    elapsed + amount ≤ j.plan.lead wait id := by
  have hready : g.run.ready = [] := by
    refine hrest.fills.full.resolve_right ?_
    rintro ⟨m, hm, -⟩
    simp [hunlimited] at hm
  induction id using hjob.built.wellFounded_parent?.induction with
  | _ id ih =>
      rcases haccounts.readied_or_pending hjob.built hjob.exists_input_of_root hid with
        hpending | hreadied
      · obtain ⟨producer, hparent, hincomplete⟩ :=
          (haccounts.mem_pending_iff hjob.built id).mp hpending
        rw [hjob.built.lead_of_parent hparent]
        by_cases hstarted : ∃ v, .started producer v ∈ g.log
        · obtain ⟨v, hv⟩ := hstarted
          have hadvanced := hrest.advanced hquiet haccounts h hjob.built
            (haccounts.readied_of_started hv) hincomplete
          unfold Job.Advanced at hadvanced
          rw [hunlimited] at hadvanced
          dsimp only at hadvanced
          omega
        · have hproducer := (hjob.built.mem_ids_of_parent? hparent).1
          have hle := ih producer hparent hproducer (not_exists.mp hstarted)
          omega
      · obtain ⟨v, hv⟩ := haccounts.exists_started_of_readied hready hreadied
        exact absurd hv (hnone v)

end AtRest

/-! ## At the end -/

namespace Paced

variable {j : Job} {wait left : String → Nat} {start elapsed : Nat} {g : Stage} {id : String}

/-- No node is started before the nodes before it can be done. -/
theorem lead_le (h : g.Paced j wait left start elapsed) (haccounts : g.Accounts j)
    (hspent : j.Spent wait left elapsed) {v : Value} (hstarted : .started id v ∈ g.log) :
    j.plan.lead wait id ≤ elapsed := by
  have hreached := h.reached id v (haccounts.readied_of_started hstarted)
  have hle := hspent.left_le id
  omega

theorem makespan (h : g.Paced j wait left start elapsed) (haccounts : g.Accounts j)
    (hjob : j.Punctual wait) (hspent : j.Spent wait left elapsed)
    (hverdict : g.verdict = .succeeded) : j.Makespan wait elapsed := by
  have hkeys := haccounts.perm_keys_of_succeeded hjob.built hjob.exists_input_of_root hverdict
  have hdone : ∀ id ∈ j.plan.ids, ∃ w, .completed id w ∈ g.log := by
    intro id hid
    rwa [← haccounts.mem_keys_iff, hkeys.mem_iff]
  have hleft : ∀ id ∈ j.plan.ids, left id = 0 := by
    intro id hid
    obtain ⟨w, hw⟩ := hdone id hid
    exact h.completed id w hw
  refine hspent.makespan hleft fun id hid => ?_
  obtain ⟨w, hw⟩ := hdone id hid
  obtain ⟨-, -, -, v, -, -, hstarted, -⟩ := haccounts.cameTo_of_completed hw
  have hreached := h.reached id v (haccounts.readied_of_started hstarted)
  rwa [hleft id hid, Nat.add_zero] at hreached

end Paced

end Stage

end Orchestration
