import Orchestration.Proofs.Call.Confinement
import Orchestration.Proofs.Run.Outcomes

/-! # The contexts of nodes

A run hands each node that it starts a context of its own. All of them are derived from the scope of
the run and have distinct tokens, and when the run is over they are cancelled. -/

namespace Orchestration

open List

/-! ## What a launch hands out -/

namespace Run

/-- The contexts that nodes are started with. -/
def contexts (job : Job) (scope : Context) :
    (inFlight : Nat) → List (Node × Value) → Session → List Context
  | _, [], _ => []
  | inFlight, (node, _) :: ready, s =>
    if job.hasRoom inFlight then
      let (c, s) := s.derive scope
      c.atNode node.id :: contexts job scope (inFlight + 1) ready s
    else []

variable (job : Job) (scope : Context)

/-- The nodes that are started work under these contexts. -/
theorem launch_tasks_eq (ended : Nat) (ready : List (Node × Value)) (tasks : List Task)
    (s : Session) : (launch job scope ended ready tasks s).1.2 =
      tasks ++ zipWith (fun e c => ⟨e.1, e.1.call e.2 c⟩) ready
        (contexts job scope (ended + tasks.length) ready s) := by
  induction ready generalizing tasks s with
  | nil => simp [launch]
  | cons e ready ih =>
      obtain ⟨n, v⟩ := e
      rw [launch, contexts]
      split
      · dsimp only
        rw [ih]
        simp [Nat.add_assoc]
      · simp

/-- Each of them is under the name of its node. -/
theorem contexts_node (inFlight : Nat) (ready : List (Node × Value)) (s : Session) :
    ∀ p ∈ zip ready (contexts job scope inFlight ready s), p.2.node = some p.1.1.id := by
  induction ready generalizing inFlight s with
  | nil => simp
  | cons e ready ih =>
      rw [contexts]
      split
      · intro p hp
        rw [zip_cons_cons] at hp
        rcases mem_cons.mp hp with rfl | hp
        · rfl
        · exact ih _ _ p hp
      · simp

theorem contexts_lineage (inFlight : Nat) (ready : List (Node × Value)) (s : Session) :
    ∀ c ∈ contexts job scope inFlight ready s,
      c.token.lineage = c.token.id :: scope.token.lineage ∧ s.registry.nextToken ≤ c.token.id := by
  induction ready generalizing inFlight s with
  | nil => simp [contexts]
  | cons e ready ih =>
      rw [contexts]
      split
      · intro c hc
        rcases mem_cons.mp hc with rfl | hc
        · exact ⟨rfl, Nat.le_refl _⟩
        · obtain ⟨hlineage, hle⟩ := ih _ _ c hc
          exact ⟨hlineage, (Nat.le_succ _).trans hle⟩
      · simp

/-- Each context has a later token than those before it. -/
theorem pairwise_contexts (inFlight : Nat) (ready : List (Node × Value)) (s : Session) :
    (contexts job scope inFlight ready s).Pairwise (·.token.id < ·.token.id) := by
  induction ready generalizing inFlight s with
  | nil => exact .nil
  | cons e ready ih =>
      rw [contexts]
      split
      · refine pairwise_cons.mpr ⟨?_, ih _ _⟩
        intro c hc
        exact (contexts_lineage job scope _ _ _ c hc).2
      · exact .nil

theorem contexts_id_lt (ended : Nat) (ready : List (Node × Value)) (tasks : List Task)
    (s : Session) : ∀ c ∈ contexts job scope (ended + tasks.length) ready s,
      c.token.id < (launch job scope ended ready tasks s).2.registry.nextToken := by
  have hlater : ∀ (ready : List (Node × Value)) (tasks : List Task) (s : Session),
      s.registry.nextToken ≤ (launch job scope ended ready tasks s).2.registry.nextToken := by
    intro ready
    induction ready with
    | nil => exact fun tasks s => Nat.le_refl _
    | cons e ready ih =>
        intro tasks s
        rw [launch]
        split
        · exact (Nat.le_succ _).trans (ih _ (s.derive scope).2)
        · exact Nat.le_refl _
  induction ready generalizing tasks s with
  | nil => simp [contexts]
  | cons e ready ih =>
      obtain ⟨n, v⟩ := e
      rw [contexts, launch]
      split
      · intro c hc
        rcases mem_cons.mp hc with rfl | hc
        · exact hlater ready _ (s.derive scope).2
        · have hrest := ih (tasks ++ [⟨n, n.call v ((s.derive scope).1.atNode n.id)⟩])
            (s.derive scope).2 c
          rw [length_append, length_singleton, ← Nat.add_assoc] at hrest
          exact hrest hc
      · simp

end Run

namespace Stage

variable {g : Stage} {schedule : Nat → Move}

/-- The contexts that a move hands out, which are those of the nodes that a round starts. -/
def newContexts (g : Stage) (m : Move) : List Context :=
  match g.verdict, m with
  | .goesOn, .round =>
    Run.contexts g.run.job g.run.scope (g.run.ended.length + g.run.tasks.length) g.run.ready
      g.session
  | _, _ => []

/-- The contexts that were handed out in so many moves. -/
def contexts (g : Stage) (schedule : Nat → Move) : Nat → List Context
  | 0 => []
  | n + 1 => g.contexts schedule n ++ (g.along schedule n).newContexts (schedule n)

/-! ## The scope stays -/

theorem observe_scope (g : Stage) : g.observe.run.scope = g.run.scope := by
  unfold observe
  split
  · split <;> rfl
  · split <;> rfl

theorem scope_after (g : Stage) (m : Move) : (g.after m).run.scope = g.run.scope := by
  unfold after
  split
  · rw [round_eq]
    split
    · rw [settle_run]
      exact g.launch_scope
    · rw [settle_run, observe_scope, launch_scope]
  · unfold poll
    split
    · rfl
    · split <;> rfl
  · rfl
  · rfl

theorem scope_along (g : Stage) (schedule : Nat → Move) (n : Nat) :
    (g.along schedule n).run.scope = g.run.scope := by
  induction n with
  | zero => rfl
  | succ n ih => rw [along, scope_after, ih]

/-! ## Contexts are derived from the scope -/

theorem mem_newContexts {m : Move} {c : Context} (h : c ∈ g.newContexts m) :
    c.token.lineage = c.token.id :: g.run.scope.token.lineage ∧
      g.session.registry.nextToken ≤ c.token.id ∧
      c.token.id < (g.after m).session.registry.nextToken := by
  unfold newContexts at h
  split at h
  · rename_i hgoes
    obtain ⟨hlineage, hle⟩ := Run.contexts_lineage _ _ _ _ _ c h
    have hlt := Run.contexts_id_lt _ _ _ _ _ _ c h
    refine ⟨hlineage, hle, ?_⟩
    simp only [after, hgoes]
    have hlater : g.launch.session.Later g.round.session := by
      rw [round_eq]
      split
      · exact (atOnce_settle { g.launch with verdict := .cancelled }).toLater
      · have hsettle := (atOnce_settle g.launch.observe).toLater
        rwa [observe_session] at hsettle
    exact hlt.trans_le hlater.tokens
  · cases h

theorem mem_contexts {n : Nat} {c : Context} (h : c ∈ g.contexts schedule n) :
    c.token.lineage = c.token.id :: g.run.scope.token.lineage := by
  induction n with
  | zero => cases h
  | succ n ih =>
      rcases mem_append.mp h with h | h
      · exact ih h
      · rw [(mem_newContexts h).1, scope_along]

theorem under_scope {n : Nat} {c : Context} (h : c ∈ g.contexts schedule n) :
    c.Under g.run.scope := by
  rw [Context.Under, mem_contexts h]
  simp [Token.lineage]

/-! ## Each node in flight has one of them -/

theorem mem_zipWith {α β γ : Type} {f : α → β → γ} {xs : List α} {ys : List β} {z : γ}
    (h : z ∈ zipWith f xs ys) : ∃ p ∈ zip xs ys, f p.1 p.2 = z := by
  rw [← map_uncurry_zip_eq_zipWith, mem_map] at h
  obtain ⟨p, hmem, rfl⟩ := h
  exact ⟨p, hmem, rfl⟩

/-- A task is one that was there before the move, perhaps polled by it, or it has just been started
under a context that the move hands out. -/
theorem task_after {m : Move} {t : Task} (h : t ∈ (g.after m).run.tasks) :
    t ∈ g.run.tasks ∨
      (∃ i u call, g.verdict = .goesOn ∧ m = .poll i ∧ g.run.tasks[i]? = some u ∧
        u.call.poll g.session = (.waiting call, (g.after m).session) ∧ t = ⟨u.node, call⟩) ∨
      g.verdict = .goesOn ∧ ∃ v, ∃ c ∈ g.newContexts m, c.node = some t.node.id ∧
        t = ⟨t.node, t.node.call v c⟩ := by
  by_cases hgoes : g.verdict = .goesOn
  · cases m with
    | round =>
        simp only [after, hgoes, round_tasks] at h
        have htasks : g.launch.run.tasks = _ := Run.launch_tasks_eq g.run.job g.run.scope
          g.run.ended.length g.run.ready g.run.tasks g.session
        rw [htasks] at h
        rcases mem_append.mp h with h | h
        · exact .inl h
        · obtain ⟨⟨⟨node, v⟩, c⟩, hmem, rfl⟩ := mem_zipWith h
          refine .inr (.inr ⟨hgoes, v, c, ?_, Run.contexts_node _ _ _ _ _ _ hmem, rfl⟩)
          simpa [newContexts, hgoes] using (of_mem_zip hmem).2
    | meanwhile change => exact .inl (by simpa [after, hgoes] using h)
    | poll i =>
        simp only [after, hgoes] at h ⊢
        cases hu : g.run.tasks[i]? with
        | none => exact .inl (by rwa [poll_of_none hu] at h)
        | some u =>
            cases hpoll : u.call.poll g.session with
            | mk state s =>
                cases state with
                | ended ending =>
                    rw [poll_of_ended hu hpoll] at h
                    exact .inl (mem_of_mem_eraseIdx h)
                | waiting call =>
                    rw [poll_of_waiting hu hpoll] at h ⊢
                    rcases mem_or_eq_of_mem_set h with h | rfl
                    · exact .inl h
                    · exact .inr (.inl ⟨i, u, call, trivial, rfl, hu, hpoll, rfl⟩)
  · rw [after_of_over hgoes] at h
    exact .inl h

/-! ## When the run is over -/

/-- The end of a run cancels its scope. -/
theorem isCancelled_of_over (hopen : g.verdict = .goesOn) {n : Nat}
    (hover : (g.along schedule n).verdict ≠ .goesOn) {c : Context} (hc : c.Under g.run.scope) :
    (g.along schedule n).session.isCancelled c = true := by
  obtain ⟨-, -, -, -, s, -, hhalt⟩ := exists_halt hopen hover
  rw [hhalt, Run.halt, Session.isCancelled_cancel_iff, scope_along]
  exact .inl hc

end Stage

end Orchestration
