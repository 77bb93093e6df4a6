import Orchestration.Proofs.Run.Places

/-! # What runs come to

A run that has succeeded has exactly one output for each node of the plan, and a run that has failed
names what one of its nodes came to. -/

namespace Orchestration

open List

/-- Of entries with distinct keys, those that are there are those that reading finds. -/
theorem Entries.lookup_eq_some_iff {κ α : Type} [BEq κ] [LawfulBEq κ] {entries : Entries κ α}
    (h : entries.keys.Nodup) (key : κ) (v : α) :
    entries.lookup key = some v ↔ (key, v) ∈ entries := by
  induction entries with
  | nil => simp
  | cons e rest ih =>
      obtain ⟨key', w⟩ := e
      obtain ⟨hfresh, hrest⟩ := nodup_cons.mp h
      rw [lookup_cons, mem_cons]
      cases hkey : key == key' with
      | true =>
          obtain rfl : key = key' := eq_of_beq hkey
          have hnone : (key, v) ∉ rest := fun hmem => hfresh (mem_map.mpr ⟨_, hmem, rfl⟩)
          simp [hnone, eq_comm]
      | false =>
          have hne : key ≠ key' := ne_of_beq_false hkey
          simp [ih hrest, hne]

namespace Stage.Accounts

variable {j : Job} {g : Stage}

theorem get?_outputs_eq_some_iff (h : g.Accounts j) (id : String) (w : Value) :
    g.run.outputs.get? id = some w ↔ .completed id w ∈ g.log := by
  have hnodup : g.run.outputs.entries.keys.Nodup := by
    rw [Entries.keys, h.outputs]
    exact (nodup_append.mp (nodup_append.mp h.nodup_flights).1).2.1
  rw [NodeValues.get?, Entries.lookup_eq_some_iff hnodup, h.outputs, mem_completedIn]

theorem cameTo_of_completed (h : g.Accounts j) {id : String} {w : Value}
    (hmem : .completed id w ∈ g.log) : j.CameTo g.log id (.ok w) := by
  obtain ⟨before, hprefix, -, hcame⟩ := h.causal.permits hmem
  exact hcame.mono hprefix.subset

theorem cameTo_of_failed (h : g.Accounts j) {n : Node} {f : Failure}
    (hverdict : g.verdict = .failed n f) : j.CameTo g.log n.id (.error f) := by
  have hfailed : .failed n.id f ∈ g.log := (h.failures n.id f).mpr ⟨n, hverdict, rfl⟩
  obtain ⟨before, hprefix, -, hcame⟩ := h.causal.permits hfailed
  exact hcame.mono hprefix.subset

/-- Once a run has succeeded, nothing is pending, for what is pending has a producer that is. -/
theorem pending_of_succeeded (h : g.Accounts j) (hplan : j.plan.Built)
    (hinputs : ∀ n ∈ j.plan.roots, ∃ v, j.inputs.get? n.id = some v)
    (hverdict : g.verdict = .succeeded) : g.occupants .pending = [] := by
  obtain ⟨hready, htasks, hended⟩ := h.idle hverdict
  have hdone : ∀ id ∈ (readiedIn g.log).map (·.1), ∃ w, .completed id w ∈ g.log := by
    intro id hid
    rw [h.perm_readied.mem_iff] at hid
    rw [← h.mem_keys_iff]
    simpa [occupants, hready, htasks, hended, taskIds, endedIds, hverdict,
      Verdict.failedIds] using hid
  rw [eq_nil_iff_forall_not_mem]
  intro id
  induction id using hplan.wellFounded_parent?.induction with
  | _ id ih =>
      intro hpending
      obtain ⟨producer, hparent, hnone⟩ := (h.mem_pending_iff hplan id).mp hpending
      have hproducer := h.readied_or_pending hplan hinputs (hplan.mem_ids_of_parent? hparent).1
      obtain ⟨w, hw⟩ := hdone producer (hproducer.resolve_left (ih producer hparent))
      exact hnone w hw

/-- The outputs of a run that has succeeded are those of all nodes, each once. -/
theorem perm_keys_of_succeeded (h : g.Accounts j) (hplan : j.plan.Built)
    (hinputs : ∀ n ∈ j.plan.roots, ∃ v, j.inputs.get? n.id = some v)
    (hverdict : g.verdict = .succeeded) : g.run.outputs.entries.keys.Perm j.plan.ids := by
  obtain ⟨hready, htasks, hended⟩ := h.idle hverdict
  have hperm := h.perm_ids hplan hinputs
  simp only [Place.all, flatMap_cons, h.pending_of_succeeded hplan hinputs hverdict] at hperm
  simpa [occupants, hready, htasks, hended, taskIds, endedIds, hverdict,
    Verdict.failedIds] using hperm

end Stage.Accounts

namespace Job

variable {j : Job}

/-- A run that ends before its first move has nothing to do or lacks an input. -/
theorem begin_eq_ended {s s' : Session} {result : RunResult}
    (h : j.begin s = (.ended result, s')) :
    j.plan.nodes = [] ∧ result = .ok .empty ∨ ∃ f, j.rootInputs = .error f ∧ result = .error f := by
  unfold begin at h
  split at h
  · rename_i hempty
    simp only [Prod.mk.injEq, Progress.ended.injEq] at h
    exact .inl ⟨isEmpty_iff.mp hempty, h.1.symm⟩
  · dsimp only at h
    split at h
    · rename_i f hinputs
      simp only [Prod.mk.injEq, Progress.ended.injEq] at h
      exact .inr ⟨f, hinputs, h.1.symm⟩
    · simp at h

/-- Every root has an input, or the run ends at once. -/
theorem exists_missing_of_rootInputs {f : Failure} (h : j.rootInputs = .error f) :
    ∃ n ∈ j.plan.roots, j.inputs.get? n.id = none := by
  have hall : ∀ roots : List Node, roots.mapM j.rootInput = .error f →
      ∃ n ∈ roots, j.inputs.get? n.id = none := by
    intro roots hroots
    induction roots with
    | nil => cases hroots
    | cons n roots ih =>
        cases hn : j.inputs.get? n.id with
        | none => exact ⟨n, mem_cons_self, hn⟩
        | some v =>
            rw [mapM_cons] at hroots
            cases hrest : roots.mapM j.rootInput with
            | ok entries =>
                simp [rootInput, hn, hrest, bind, Except.bind, pure, Except.pure] at hroots
            | error f' =>
                obtain rfl : f' = f := by
                  simpa [rootInput, hn, hrest, bind, Except.bind] using hroots
                obtain ⟨m, hm, hnone⟩ := ih hrest
                exact ⟨m, mem_cons_of_mem _ hm, hnone⟩
  exact hall j.plan.roots h

/-- Where the result of a job comes from. -/
theorem result?_eq_some {s : Session} {schedule : Nat → Move} {n : Nat} {result : RunResult}
    (h : j.result? s schedule n = some result) :
    (j.plan.nodes = [] ∧ result = .ok .empty ∨ ∃ f, j.rootInputs = .error f ∧ result = .error f) ∨
      ∃ r s', j.begin s = (.waiting r, s') ∧
        ((Stage.opening r s').along schedule n).result? = some result := by
  unfold result? at h
  split at h
  · rename_i hbegin
    obtain rfl := Option.some.inj h
    exact .inl (begin_eq_ended hbegin)
  · rename_i r s' hbegin
    exact .inr ⟨r, s', hbegin, h⟩

end Job

theorem Stage.result?_eq_ok_iff (g : Stage) (outputs : NodeValues) :
    g.result? = some (.ok outputs) ↔ g.verdict = .succeeded ∧ g.run.outputs = outputs := by
  unfold result?
  cases g.verdict <;> simp

theorem Stage.result?_eq_error_iff (g : Stage) (f : Failure) :
    g.result? = some (.error f) ↔
      (∃ n, g.verdict = .failed n f) ∨ g.verdict = .cancelled ∧ f = Run.cancelled := by
  unfold result?
  cases g.verdict <;> simp [eq_comm]

end Orchestration
