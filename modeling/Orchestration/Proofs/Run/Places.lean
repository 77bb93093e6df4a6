import Mathlib.Data.List.Pairwise
import Orchestration.Proofs.Run.TaskTable

/-! # Every node is in one place

At every stage of a run, however its tasks take their turns and whatever happens to the session,
each node of the plan is in exactly one place, and the history that led there is causal. -/

namespace Orchestration

open List

namespace Stage

/-- Where a node can be. -/
inductive Place where
  | pending
  | ready
  | inFlight
  | completed
  | failed
deriving DecidableEq

def Place.all : List Place := [.pending, .ready, .inFlight, .completed, .failed]

theorem Place.mem_all (place : Place) : place ∈ all := by
  cases place <;> simp [all]

/-- The nodes in a place. A node is pending as long as its producer has no output. -/
def occupants (g : Stage) : Place → List String
  | .pending => g.run.job.plan.ids.filter fun id =>
      (g.run.job.plan.parent? id).any (· ∉ g.run.outputs.entries.keys)
  | .ready => g.run.ready.map (·.1.id)
  | .inFlight => g.taskIds ++ g.endedIds
  | .completed => g.run.outputs.entries.keys
  | .failed => g.verdict.failedIds

namespace Accounts

variable {j : Job} {g : Stage}

/-- A node is in some place but the first if it has become ready, and it is there once. -/
theorem perm_readied (h : g.Accounts j) : ((readiedIn g.log).map (·.1)).Perm
    (g.occupants .ready ++ (g.occupants .inFlight ++ g.occupants .completed ++
      g.occupants .failed)) := by
  rw [h.queue, map_append, map_map]
  simp only [occupants, Entries.keys, h.outputs]
  exact (h.flights.append_right _).trans perm_append_comm

theorem exists_readied_iff (h : g.Accounts j) (id : String) :
    id ∈ (readiedIn g.log).map (·.1) ↔ ∃ v, j.Supplied g.log id v := by
  rw [mem_map]
  constructor
  · rintro ⟨⟨id, v⟩, hmem, rfl⟩
    exact ⟨v, (h.supplied id v).mp ((mem_readiedIn _ _ _).mp hmem)⟩
  · rintro ⟨v, hsupplied⟩
    exact ⟨(id, v), (mem_readiedIn _ _ _).mpr ((h.supplied id v).mpr hsupplied), rfl⟩

theorem mem_keys_iff (h : g.Accounts j) (id : String) :
    id ∈ g.run.outputs.entries.keys ↔ ∃ w, .completed id w ∈ g.log := by
  rw [Entries.keys, h.outputs, mem_map]
  constructor
  · rintro ⟨⟨id, w⟩, hmem, rfl⟩
    exact ⟨w, (mem_completedIn _ _ _).mp hmem⟩
  · rintro ⟨w, hmem⟩
    exact ⟨(id, w), (mem_completedIn _ _ _).mpr hmem, rfl⟩

theorem mem_pending_iff (h : g.Accounts j) (hplan : j.plan.Built) (id : String) :
    id ∈ g.occupants .pending ↔ ∃ producer, j.plan.parent? id = some producer ∧
      ∀ w, .completed producer w ∉ g.log := by
  simp only [occupants, mem_filter, h.job, Option.any_eq_true, decide_eq_true_eq, h.mem_keys_iff,
    not_exists]
  constructor
  · exact fun ⟨_, hpending⟩ => hpending
  · exact fun ⟨producer, hparent, hnone⟩ =>
      ⟨(hplan.mem_ids_of_parent? hparent).2, producer, hparent, hnone⟩

/-- A node has become ready, or it is pending, and never both. -/
theorem readied_or_pending (h : g.Accounts j) (hplan : j.plan.Built)
    (hinputs : ∀ n ∈ j.plan.roots, ∃ v, j.inputs.get? n.id = some v) {id : String}
    (hid : id ∈ j.plan.ids) :
    id ∈ g.occupants .pending ∨ id ∈ (readiedIn g.log).map (·.1) := by
  rw [h.exists_readied_iff, h.mem_pending_iff hplan]
  obtain ⟨n, hn, rfl⟩ := mem_map.mp hid
  cases hparent : j.plan.parent? n.id with
  | none =>
      have hroot : n ∈ j.plan.roots := mem_filter.mpr ⟨hn, by simp [hparent]⟩
      obtain ⟨v, hv⟩ := hinputs n hroot
      exact .inr ⟨v, .inl ⟨n, hroot, rfl, hv⟩⟩
  | some producer =>
      by_cases hdone : ∃ w, .completed producer w ∈ g.log
      · obtain ⟨w, hw⟩ := hdone
        exact .inr ⟨w, .inr ⟨producer, hparent, hw⟩⟩
      · exact .inl ⟨producer, rfl, not_exists.mp hdone⟩

theorem not_readied_of_pending (h : g.Accounts j) (hplan : j.plan.Built) {id : String}
    (hpending : id ∈ g.occupants .pending) : id ∉ (readiedIn g.log).map (·.1) := by
  obtain ⟨producer, hparent, hnone⟩ := (h.mem_pending_iff hplan id).mp hpending
  rw [h.exists_readied_iff]
  rintro ⟨v, hsupplied⟩
  exact h.not_readied hparent hnone v ((h.supplied id v).mpr hsupplied)

/-- Taken together, the places hold every node of the plan once. -/
theorem perm_ids (h : g.Accounts j) (hplan : j.plan.Built)
    (hinputs : ∀ n ∈ j.plan.roots, ∃ v, j.inputs.get? n.id = some v) :
    (Place.all.flatMap g.occupants).Perm j.plan.ids := by
  have hall : (Place.all.flatMap g.occupants).Perm
      (g.occupants .pending ++ (readiedIn g.log).map (·.1)) := by
    simpa [Place.all] using h.perm_readied.symm.append_left (g.occupants .pending)
  refine hall.trans ((perm_ext_iff_of_nodup ?_ hplan.nodup_ids).mpr ?_)
  · refine nodup_append'.mpr ⟨?_, h.readiedOnce, fun id => h.not_readied_of_pending hplan⟩
    rw [occupants, h.job]
    exact hplan.nodup_ids.filter _
  · intro id
    rw [mem_append]
    refine ⟨?_, h.readied_or_pending hplan hinputs⟩
    rintro (hpending | hreadied)
    · obtain ⟨producer, hparent, -⟩ := (h.mem_pending_iff hplan id).mp hpending
      exact (hplan.mem_ids_of_parent? hparent).2
    · obtain ⟨v, ⟨n, hn, rfl, -⟩ | ⟨producer, hparent, -⟩⟩ := (h.exists_readied_iff id).mp hreadied
      · exact mem_map_of_mem (mem_filter.mp hn).1
      · exact (hplan.mem_ids_of_parent? hparent).2

/-- A node of the plan is in exactly one place. -/
theorem existsUnique_place (h : g.Accounts j) (hplan : j.plan.Built)
    (hinputs : ∀ n ∈ j.plan.roots, ∃ v, j.inputs.get? n.id = some v) {id : String}
    (hid : id ∈ j.plan.ids) : ∃! place, id ∈ g.occupants place := by
  have hperm := h.perm_ids hplan hinputs
  obtain ⟨place, -, hplace⟩ := mem_flatMap.mp (hperm.mem_iff.mpr hid)
  have hdisjoint := (nodup_flatMap.mp (hperm.nodup_iff.mpr hplan.nodup_ids)).2
  refine ⟨place, hplace, fun other hother => ?_⟩
  by_contra hne
  have : Std.Symm (Function.onFun Disjoint g.occupants) := ⟨fun _ _ h => h.symm⟩
  exact hdisjoint.forall (Place.mem_all _) (Place.mem_all _) hne hother hplace

end Accounts

/-- The state of a run and its history belong together, and every node has its place. -/
structure Orderly (j : Job) (g : Stage) : Prop where
  places : (Place.all.flatMap g.occupants).Perm j.plan.ids
  onePlace : ∀ id ∈ j.plan.ids, ∃! place, id ∈ g.occupants place
  causal : j.Causal g.log
  queue : readiedIn g.log = startedIn g.log ++ g.run.ready.map fun e => (e.1.id, e.2)
  tasks : ∀ t ∈ g.run.tasks, t.node ∈ j.plan.nodes ∧
    ∃ v c, .started t.node.id v ∈ g.log ∧ (t.node.call v c).Remains t.call
  outputs : g.run.outputs.entries = completedIn g.log

end Stage

theorem Job.exists_input_of_begin {j : Job} {s s' : Session} {r : Run}
    (hbegin : j.begin s = (.waiting r, s')) {n : Node} (hn : n ∈ j.plan.roots) :
    ∃ v, j.inputs.get? n.id = some v := by
  obtain ⟨ready, hready, -, -⟩ := j.begin_eq_waiting hbegin
  obtain ⟨hroots, hinputs⟩ := j.rootInputs_eq_ok hready
  rw [← hroots] at hn
  obtain ⟨e, he, rfl⟩ := mem_map.mp hn
  exact ⟨e.2, hinputs e he⟩

theorem TableRun.tracks_opening {j : Job} {s s' : Session} {r : Run}
    (hbegin : j.begin s = (.waiting r, s')) :
    (TableRun.opening r s').Tracks (.opening r s') := by
  obtain ⟨ready, -, rfl, rfl⟩ := j.begin_eq_waiting hbegin
  exact ⟨rfl, rfl, rfl, rfl, rfl, rfl, .nil, nodup_nil, .nil, .nil⟩

/-- Whatever agents do, in whatever order they do it, and whatever else happens to the session: the
run of a plan is orderly at every stage, and a run that knows its tasks by number is in step with it
and finds each number that it is told. -/
theorem Job.run_orderly {j : Job} (hplan : j.plan.Built) {s s' : Session} {r : Run}
    (hbegin : j.begin s = (.waiting r, s')) {number : Numbering}
    (hnumber : ∀ spawned used, number spawned used ∉ used) (schedule : Nat → Move) (n : Nat) :
    let g := (Stage.opening r s').along schedule n
    let b := (TableRun.opening r s').along number schedule n
    g.Orderly j ∧ b.Tracks g ∧
      ∀ u ∈ b.joinable, ∃ node, b.inFlight.lookup u.number = some node := by
  intro g b
  have haccounts : g.Accounts j := Stage.Accounts.along hplan hbegin schedule n
  have htracks : b.Tracks g := (TableRun.tracks_opening hbegin).along hnumber schedule n
  have hinputs := fun n (hn : n ∈ j.plan.roots) => Job.exists_input_of_begin hbegin hn
  refine ⟨⟨haccounts.perm_ids hplan hinputs, fun id => haccounts.existsUnique_place hplan hinputs,
    haccounts.causal, haccounts.queue, haccounts.tasks, haccounts.outputs⟩, htracks, ?_⟩
  have hknown : Forall₂ (fun u e => (∃ node, b.inFlight.lookup u.number = some node) ∧
      TableRun.Holds b.inFlight u e.node e.ending) b.joinable g.run.ended :=
    htracks.joinable.imp fun u e hue => ⟨⟨e.node, hue.2⟩, hue⟩
  exact ((forall₂_and_left b.joinable g.run.ended).mp hknown).1

/-! ## A small plan -/

/-- A node that hands on its text. -/
def Node.relay (serial : Nat) (id : String) : Node :=
  ⟨id, .text, .text, .ofFunction serial id fun _ d => .value d⟩

/-- Two nodes, of which the second takes what the first yields. -/
def Plan.relays : Plan where
  nodes := [.relay 0 "a", .relay 1 "b"]
  edges := [.between "a" "b"]
  links := [("a", "b")]
  order := ["a", "b"]

theorem Plan.built_relays : Plan.relays.Built :=
  ⟨⟨Plan.relays.nodes, Plan.relays.edges⟩, by rfl⟩

/-- The small plan on a value, with one node in flight at most. -/
def Job.relays (v : Value) : Job where
  plan := .relays
  inputs := ⟨[("a", v)]⟩
  maxConcurrency := some 1
  context := ⟨0, ⟨0, []⟩, none⟩

/-- The run of the small plan before its first move. -/
def Run.relays (v : Value) : Run where
  job := .relays v
  scope := ⟨0, ⟨0, [0]⟩, none⟩
  ready := [(.relay 0 "a", v)]
  tasks := []
  ended := []
  outputs := .empty

/-- A session that has handed out one token. -/
def Session.second : Session := (Session.initial.derive ⟨0, ⟨0, []⟩, none⟩).2

theorem Job.begin_relays (v : Value) :
    (Job.relays v).begin .initial = (.waiting (.relays v), .second) := by rfl

/-- Rounds, and polls of the first task, in turn. -/
def Move.inTurn (n : Nat) : Move := if n % 2 = 0 then .round else .poll 0

/-- A number above all that are in use. -/
def Numbering.above : Numbering := fun _ used => used.max?.getD 0 + 1

theorem Numbering.above_notMem (spawned : Nat) (used : List Nat) : above spawned used ∉ used :=
  fun hmem => Nat.not_succ_le_self _ (le_max?_getD_of_mem hmem)

theorem Job.run_orderly_relays :
    let g := (Stage.opening (.relays (.text "x")) .second).along .inTurn 3
    let b := (TableRun.opening (.relays (.text "x")) .second).along .above .inTurn 3
    g.Orderly (.relays (.text "x")) ∧ b.Tracks g ∧
      ∀ u ∈ b.joinable, ∃ node, b.inFlight.lookup u.number = some node :=
  Job.run_orderly Plan.built_relays (Job.begin_relays _) Numbering.above_notMem Move.inTurn 3

end Orchestration
