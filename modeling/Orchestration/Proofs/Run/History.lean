import Orchestration.Proofs.Call.Settling
import Orchestration.Proofs.Run.Changes

/-! # Histories

What may happen to a node after what has happened so far. In a causal history every happening is
permitted by those before it: a node becomes ready once, with its own input or with what its
producer came to, it is started once with that value, and it comes to what polls of its call may
lead to. A failure is the last happening. -/

namespace Orchestration

open List

/-! ## Readings of a history -/

def readiedIn (log : List Happening) : List (String × Value) :=
  log.filterMap fun
    | .readied node input => some (node, input)
    | _ => none

def startedIn (log : List Happening) : List (String × Value) :=
  log.filterMap fun
    | .started node input => some (node, input)
    | _ => none

def completedIn (log : List Happening) : List (String × Value) :=
  log.filterMap fun
    | .completed node output => some (node, output)
    | _ => none

theorem mem_readiedIn (log : List Happening) (id : String) (v : Value) :
    (id, v) ∈ readiedIn log ↔ .readied id v ∈ log := by
  simp only [readiedIn, mem_filterMap]
  constructor
  · rintro ⟨h, hmem, heq⟩
    cases h <;> simp_all
  · exact fun hmem => ⟨_, hmem, rfl⟩

theorem mem_startedIn (log : List Happening) (id : String) (v : Value) :
    (id, v) ∈ startedIn log ↔ .started id v ∈ log := by
  simp only [startedIn, mem_filterMap]
  constructor
  · rintro ⟨h, hmem, heq⟩
    cases h <;> simp_all
  · exact fun hmem => ⟨_, hmem, rfl⟩

theorem mem_completedIn (log : List Happening) (id : String) (v : Value) :
    (id, v) ∈ completedIn log ↔ .completed id v ∈ log := by
  simp only [completedIn, mem_filterMap]
  constructor
  · rintro ⟨h, hmem, heq⟩
    cases h <;> simp_all
  · exact fun hmem => ⟨_, hmem, rfl⟩

theorem readiedIn_append (log more : List Happening) :
    readiedIn (log ++ more) = readiedIn log ++ readiedIn more := filterMap_append

theorem startedIn_append (log more : List Happening) :
    startedIn (log ++ more) = startedIn log ++ startedIn more := filterMap_append

theorem completedIn_append (log more : List Happening) :
    completedIn (log ++ more) = completedIn log ++ completedIn more := filterMap_append

@[simp]
theorem readiedIn_allReadied (entries : List (Node × Value)) :
    readiedIn (allReadied entries) = entries.map fun e => (e.1.id, e.2) := by
  simp [readiedIn, allReadied, filterMap_map]

@[simp]
theorem startedIn_allReadied (entries : List (Node × Value)) :
    startedIn (allReadied entries) = [] := by
  simp [startedIn, allReadied]

@[simp]
theorem completedIn_allReadied (entries : List (Node × Value)) :
    completedIn (allReadied entries) = [] := by
  simp [completedIn, allReadied]

theorem mem_allReadied (entries : List (Node × Value)) (h : Happening) :
    h ∈ allReadied entries ↔ ∃ e ∈ entries, .readied e.1.id e.2 = h := by
  simp [allReadied]

@[simp]
theorem readiedIn_completion (p : Plan) (n : Node) (output : Value) :
    readiedIn (p.completion n output) = (p.consumers n.id).map fun m => (m.id, output) := by
  rw [Plan.completion, ← singleton_append, readiedIn_append, readiedIn_allReadied, map_map]
  rfl

@[simp]
theorem startedIn_completion (p : Plan) (n : Node) (output : Value) :
    startedIn (p.completion n output) = [] := by
  rw [Plan.completion, ← singleton_append, startedIn_append, startedIn_allReadied]
  rfl

@[simp]
theorem completedIn_completion (p : Plan) (n : Node) (output : Value) :
    completedIn (p.completion n output) = [(n.id, output)] := by
  rw [Plan.completion, ← singleton_append, completedIn_append, completedIn_allReadied]
  rfl

/-! ## Causal histories -/

namespace Job

/-- The value is what the node is to be given: its own input at a root, and otherwise what its
producer has come to. -/
def Supplied (j : Job) (log : List Happening) (id : String) (v : Value) : Prop :=
  (∃ n ∈ j.plan.roots, n.id = id ∧ j.inputs.get? id = some v) ∨
    ∃ producer, j.plan.parent? id = some producer ∧ .completed producer v ∈ log

/-- The node was started, and polls of its call on the value it was given may lead to the result. -/
def CameTo (j : Job) (log : List Happening) (id : String) (result : Except Failure Value) : Prop :=
  ∃ n ∈ j.plan.nodes, n.id = id ∧ ∃ v c ending, .started id v ∈ log ∧
    (n.call v c).MayEnd ending ∧ n.resultOf ending = result

/-- What may happen next. -/
def Permits (j : Job) (log : List Happening) : Happening → Prop
  | .readied id v => (∀ w, .readied id w ∉ log) ∧ j.Supplied log id v
  | .started id v => (∀ w, .started id w ∉ log) ∧ .readied id v ∈ log
  | .completed id output => (∀ w, .completed id w ∉ log) ∧ j.CameTo log id (.ok output)
  | .failed id f => (∀ w, .completed id w ∉ log) ∧ j.CameTo log id (.error f)

/-- Each happening is permitted by those before it, and nothing comes after a failure. -/
def Causal (j : Job) (log : List Happening) : Prop :=
  ∀ before h after, log = before ++ h :: after →
    j.Permits before h ∧ ((∃ id f, h = .failed id f) → after = [])

theorem causal_nil (j : Job) : j.Causal [] := by
  intro before h after hlog
  simp at hlog

theorem Causal.concat {j : Job} {log : List Happening} {h : Happening} (hlog : j.Causal log)
    (hnone : ∀ id f, .failed id f ∉ log) (hnext : j.Permits log h) : j.Causal (log ++ [h]) := by
  intro before h' after heq
  rcases eq_nil_or_concat after with rfl | ⟨after, last, rfl⟩
  · obtain ⟨rfl, hlast⟩ := append_inj' heq rfl
    obtain rfl : h = h' := by simpa using hlast
    exact ⟨hnext, fun _ => rfl⟩
  · rw [concat_eq_append, ← cons_append, ← append_assoc] at heq
    obtain ⟨rfl, -⟩ := append_inj' heq rfl
    refine ⟨(hlog before h' after rfl).1, ?_⟩
    rintro ⟨id, f, rfl⟩
    exact absurd (by simp) (hnone id f)

theorem Causal.permits {j : Job} {log : List Happening} (hlog : j.Causal log) {h : Happening}
    (hmem : h ∈ log) : ∃ before, before <+: log ∧ j.Permits before h := by
  obtain ⟨before, after, rfl⟩ := append_of_mem hmem
  exact ⟨before, prefix_append _ _, (hlog before h after rfl).1⟩

theorem Supplied.mono {j : Job} {log more : List Happening} {id : String} {v : Value}
    (h : j.Supplied log id v) (hsub : log ⊆ more) : j.Supplied more id v :=
  h.imp_right fun ⟨producer, hparent, hmem⟩ => ⟨producer, hparent, hsub hmem⟩

theorem CameTo.mono {j : Job} {log more : List Happening} {id : String}
    {result : Except Failure Value} (h : j.CameTo log id result) (hsub : log ⊆ more) :
    j.CameTo more id result := by
  obtain ⟨n, hn, hid, v, c, ending, hstarted, hend⟩ := h
  exact ⟨n, hn, hid, v, c, ending, hsub hstarted, hend⟩

/-- Several nodes may become ready one after another. -/
theorem Causal.append_allReadied {j : Job} {log : List Happening} (hlog : j.Causal log)
    (hnone : ∀ id f, .failed id f ∉ log) (entries : List (Node × Value))
    (hnodup : (entries.map (·.1.id)).Nodup) (hnew : ∀ e ∈ entries, ∀ w, .readied e.1.id w ∉ log)
    (hsupplied : ∀ e ∈ entries, j.Supplied log e.1.id e.2) :
    j.Causal (log ++ allReadied entries) := by
  induction entries generalizing log with
  | nil => simpa [allReadied] using hlog
  | cons e entries ih =>
      obtain ⟨hfresh, hnodup⟩ := nodup_cons.mp hnodup
      have hpermits : j.Permits log (.readied e.1.id e.2) :=
        ⟨hnew e mem_cons_self, hsupplied e mem_cons_self⟩
      rw [allReadied, map_cons, append_cons]
      refine ih (hlog.concat hnone hpermits) ?_ hnodup ?_ ?_
      · simpa using hnone
      · intro e' he' w hmem
        rcases mem_append.mp hmem with hmem | hmem
        · exact hnew e' (mem_cons_of_mem _ he') w hmem
        · obtain ⟨heq, -⟩ : e'.1.id = e.1.id ∧ w = e.2 := by simpa using hmem
          exact hfresh (mem_map.mpr ⟨e', he', heq⟩)
      · intro e' he'
        exact (hsupplied e' (mem_cons_of_mem _ he')).mono (subset_append_left _ _)

/-- What is supplied after a completion was so before, or the completion supplies it. -/
theorem supplied_append_completion_iff (j : Job) (log : List Happening) (n : Node) (output : Value)
    (id : String) (v : Value) : j.Supplied (log ++ j.plan.completion n output) id v ↔
      j.Supplied log id v ∨ j.plan.parent? id = some n.id ∧ v = output := by
  have hcompleted : ∀ producer, .completed producer v ∈ log ++ j.plan.completion n output ↔
      .completed producer v ∈ log ∨ producer = n.id ∧ v = output := by
    intro producer
    rw [← mem_completedIn, completedIn_append, completedIn_completion, mem_append, mem_completedIn]
    simp
  unfold Supplied
  simp only [hcompleted]
  constructor
  · rintro (hroot | ⟨producer, hparent, hmem | ⟨rfl, rfl⟩⟩)
    · exact .inl (.inl hroot)
    · exact .inl (.inr ⟨producer, hparent, hmem⟩)
    · exact .inr ⟨hparent, rfl⟩
  · rintro ((hroot | ⟨producer, hparent, hmem⟩) | ⟨hparent, rfl⟩)
    · exact .inl hroot
    · exact .inr ⟨producer, hparent, .inl hmem⟩
    · exact .inr ⟨n.id, hparent, .inr ⟨rfl, rfl⟩⟩

/-- A node may complete if none of its consumers has become ready. -/
theorem Causal.append_completion {j : Job} {log : List Happening} (hlog : j.Causal log)
    (hplan : j.plan.Built) (hnone : ∀ id f, .failed id f ∉ log) {n : Node} {output : Value}
    (hpermits : j.Permits log (.completed n.id output))
    (hnew : ∀ m ∈ j.plan.consumers n.id, ∀ w, .readied m.id w ∉ log) :
    j.Causal (log ++ j.plan.completion n output) := by
  rw [Plan.completion, append_cons]
  refine (hlog.concat hnone hpermits).append_allReadied ?_ _ ?_ ?_ ?_
  · simpa using hnone
  · simpa [Function.comp_def] using hplan.nodup_map_id_consumers n.id
  · simpa using hnew
  · intro e he
    obtain ⟨m, hm, rfl⟩ := mem_map.mp he
    exact .inr ⟨n.id, ((hplan.mem_consumers_iff _ m).mp hm).2, by simp⟩

end Job

end Orchestration
