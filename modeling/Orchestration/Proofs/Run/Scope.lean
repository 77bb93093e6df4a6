import Orchestration.Proofs.Policy.Scope
import Orchestration.Proofs.Run.Contexts

/-! # What runs cancel

A run goes on in a session in which other things happen as well, among them other runs. In its turns
it cancels nothing but its scope, and its agents cancel what they know and what they were given.
None of this reaches a context that was there before or that others were given, since a token that
is handed out in one turn is not handed out in another. -/

namespace Orchestration

open List

variable {P : Nat → Prop}

/-- The context is not derived from these tokens. -/
def Context.Avoids (P : Nat → Prop) (c : Context) : Prop := ∀ id ∈ c.token.lineage, ¬ P id

theorem Session.isCancelled_cancel_of_not_under (s : Session) {c d : Context} (h : ¬ d.Under c) :
    (s.cancel c).isCancelled d = s.isCancelled d := by
  rw [Bool.eq_iff_iff, isCancelled_cancel_iff]
  simp [h]

/-- Contexts that are not derived from what was cancelled in between stay as they are. -/
theorem Session.CancelsOnly.isCancelled_eq {A : Nat → Prop} {s s' : Session} {c : Context}
    (h : s.CancelsOnly A s') (hlater : s.Later s') (hc : ∀ id ∈ c.token.lineage, ¬ A id) :
    s'.isCancelled c = s.isCancelled c := by
  rw [Bool.eq_iff_iff]
  refine ⟨fun hcancelled => ?_, hlater.isCancelled⟩
  refine (h.exists_of_isCancelled hcancelled).resolve_right ?_
  rintro ⟨id, hid, hA⟩
  exact hc id hid hA

theorem Node.confined_call {n : Node} (h : n.agent.Confined P) {A : Nat → Prop}
    (hA : ∀ id, P id → A id) {c : Context} (hc : A c.token.id) (v : Value) :
    (n.call v c).Confined A := by
  unfold call
  split
  · trivial
  · apply confined_withCopy
    intro copy
    refine ⟨h.execute hA copy hc, fun ending => ?_⟩
    cases ending <;> trivial

/-! ## Single moves -/

theorem Run.cancelsOnly_halt (r : Run) (s : Session) :
    s.CancelsOnly (· = r.scope.token.id) (r.halt s) :=
  ⟨[r.scope.token.id], by rw [halt_registry]; rfl, by simp⟩

namespace Stage

theorem cancelsOnly_launch (g : Stage) : g.session.CancelsOnly P g.launch.session :=
  launch_induction (P := fun g' => g.session.CancelsOnly P g'.session) (.refl _)
    fun _ _ _ _ h _ _ => h.trans (.of_eq rfl)

theorem cancelsOnly_settle (g : Stage) :
    g.session.CancelsOnly (· = g.run.scope.token.id) g.settle.session := by
  unfold settle
  split
  · exact .refl _
  · exact g.run.cancelsOnly_halt g.session

/-- A round cancels nothing but the scope. -/
theorem cancelsOnly_round (g : Stage) :
    g.session.CancelsOnly (· = g.run.scope.token.id) g.round.session := by
  rw [round_eq]
  split
  · have h := cancelsOnly_settle { g.launch with verdict := .cancelled }
    rw [launch_scope] at h
    exact g.cancelsOnly_launch.trans h
  · have h := cancelsOnly_settle g.launch.observe
    rw [observe_session, observe_scope, launch_scope] at h
    exact g.cancelsOnly_launch.trans h

theorem of_mem_newContexts {g : Stage} {m : Move} {c : Context} (h : c ∈ g.newContexts m) :
    g.verdict = .goesOn ∧ m = .round := by
  unfold newContexts at h
  split at h
  · exact ⟨‹_›, rfl⟩
  · cases h

theorem pairwise_newContexts (g : Stage) (m : Move) :
    (g.newContexts m).Pairwise (·.token.id < ·.token.id) := by
  unfold newContexts
  split
  · exact Run.pairwise_contexts ..
  · exact .nil

theorem exists_of_mem_contexts {g : Stage} {schedule : Nat → Move} {n : Nat} {c : Context}
    (h : c ∈ g.contexts schedule n) :
    ∃ k < n, c ∈ (g.along schedule k).newContexts (schedule k) := by
  induction n with
  | zero => cases h
  | succ n ih =>
      rcases mem_append.mp h with h | h
      · obtain ⟨k, hk, hc⟩ := ih h
        exact ⟨k, Nat.lt_succ_of_lt hk, hc⟩
      · exact ⟨n, Nat.lt_succ_self n, h⟩

end Stage

/-- The move is one of the run or of one of its tasks. -/
def Move.Own : Move → Prop
  | round | poll _ => True
  | meanwhile _ => False

/-! ## Sessions over time -/

/-- A session at one moment after another. -/
structure Chronicle where
  session : Nat → Session
  later : ∀ n, (session n).Later (session (n + 1))

namespace Chronicle

variable {σ : Chronicle}

theorem later_of_le {m n : Nat} (h : m ≤ n) : (σ.session m).Later (σ.session n) := by
  induction h with
  | refl => exact .refl _
  | step _ ih => exact ih.trans (σ.later _)

/-- The token is handed out between this moment and the next one. -/
def HandsOut (σ : Chronicle) (n id : Nat) : Prop :=
  (σ.session n).registry.nextToken ≤ id ∧ id < (σ.session (n + 1)).registry.nextToken

theorem HandsOut.le_of_lt {m n id : Nat} (h : σ.HandsOut m id) {bound : Nat}
    (hbound : id < bound) (hn : bound ≤ (σ.session n).registry.nextToken) : m < n := by
  by_contra hle
  have htokens := (σ.later_of_le (Nat.le_of_not_lt hle)).tokens
  have hid := h.1
  omega

/-- No token is handed out twice. -/
theorem HandsOut.unique {m n id : Nat} (h : σ.HandsOut m id) (h' : σ.HandsOut n id) : m = n := by
  have hle := h.le_of_lt h'.2 (Nat.le_refl _)
  have hle' := h'.le_of_lt h.2 (Nat.le_refl _)
  omega

end Chronicle

/-- A run of a job as part of all that happens in a session. -/
structure Course (σ : Chronicle) (j : Job) where
  start : Nat
  run : Run
  schedule : Nat → Move
  begins : j.begin (σ.session start) = (.waiting run, σ.session (start + 1))
  follows : ∀ k,
    let g := (Stage.opening run (σ.session (start + 1))).along schedule
    (g k).verdict = .goesOn → (g (k + 1)).session = σ.session (start + 1 + (k + 1))

namespace Course

variable {σ : Chronicle} {j : Job} (ρ : Course σ j)

/-- The run after so many moves. -/
def stage (k : Nat) : Stage :=
  (Stage.opening ρ.run (σ.session (ρ.start + 1))).along ρ.schedule k

/-- The contexts that were handed out to nodes in so many moves. -/
def contexts (k : Nat) : List Context :=
  (Stage.opening ρ.run (σ.session (ρ.start + 1))).contexts ρ.schedule k

/-- The moments in which the run or one of its tasks makes a move. -/
def Turns (n : Nat) : Prop :=
  n = ρ.start ∨ ∃ k, n = ρ.start + 1 + k ∧ (ρ.stage k).verdict = .goesOn ∧ (ρ.schedule k).Own

/-- The token was handed out by a move of the run or of one of its tasks. -/
def Owns (id : Nat) : Prop := ∃ n, ρ.Turns n ∧ σ.HandsOut n id

/-- The context is made of tokens that others handed out. -/
def Foreign (c : Context) : Prop := ∀ id ∈ c.token.lineage, ¬ ρ.Owns id

/-- The token was handed out to the node of some name: when it was started, or as its task was
polled. -/
def Serves (name : String) (id : Nat) : Prop :=
  ∃ k, (ρ.stage k).verdict = .goesOn ∧ σ.HandsOut (ρ.start + 1 + k) id ∧
    ((∃ c ∈ (ρ.stage k).newContexts (ρ.schedule k), c.node = some name ∧ c.token.id = id) ∨
      ∃ i t, ρ.schedule k = .poll i ∧ (ρ.stage k).run.tasks[i]? = some t ∧ t.node.id = name)

/-! ## The tokens of a run -/

theorem stage_succ (k : Nat) : ρ.stage (k + 1) = (ρ.stage k).after (ρ.schedule k) := rfl

theorem session_succ {k : Nat} (hgoes : (ρ.stage k).verdict = .goesOn) :
    (ρ.stage (k + 1)).session = σ.session (ρ.start + 1 + (k + 1)) := ρ.follows k hgoes

theorem session_eq {k : Nat} (hgoes : (ρ.stage k).verdict = .goesOn) :
    (ρ.stage k).session = σ.session (ρ.start + 1 + k) := by
  cases k with
  | zero => rfl
  | succ k =>
      refine ρ.session_succ ?_
      by_contra hover
      rw [stage, Stage.along_of_over (Nat.le_succ k) hover] at hgoes
      exact hover hgoes

theorem scope_stage (k : Nat) : (ρ.stage k).run.scope = ρ.run.scope := Stage.scope_along ..

theorem scope_eq : ρ.run.scope = ((σ.session ρ.start).derive j.context).1 ∧
    σ.session (ρ.start + 1) = ((σ.session ρ.start).derive j.context).2 := by
  obtain ⟨ready, -, hrun, hsession⟩ := j.begin_eq_waiting ρ.begins
  exact ⟨by rw [hrun], hsession⟩

theorem scope_lineage : ρ.run.scope.token.lineage =
    (σ.session ρ.start).registry.nextToken :: j.context.token.lineage := by
  rw [ρ.scope_eq.1, Session.derive_lineage]

theorem handsOut_scope : σ.HandsOut ρ.start ρ.run.scope.token.id := by
  rw [ρ.scope_eq.1]
  refine ⟨Nat.le_refl _, ?_⟩
  rw [ρ.scope_eq.2]
  exact Nat.lt_succ_self _

theorem owns_scope : ρ.Owns ρ.run.scope.token.id := ⟨ρ.start, .inl rfl, ρ.handsOut_scope⟩

theorem start_le {n : Nat} (h : ρ.Turns n) : ρ.start ≤ n := by
  rcases h with rfl | ⟨k, rfl, -⟩ <;> omega

/-- Whatever was there before the run is foreign. -/
theorem foreign_of_issued {c : Context} (h : (σ.session ρ.start).Issued c) : ρ.Foreign c := by
  rintro id hid ⟨n, hturn, hhands⟩
  have htokens := (σ.later_of_le (ρ.start_le hturn)).tokens
  have hlt := h id hid
  have hle := hhands.1
  omega

theorem handsOut_of_mem_newContexts {k : Nat} {c : Context}
    (h : c ∈ (ρ.stage k).newContexts (ρ.schedule k)) :
    σ.HandsOut (ρ.start + 1 + k) c.token.id ∧
      c.token.lineage = c.token.id :: ρ.run.scope.token.lineage := by
  obtain ⟨hgoes, -⟩ := Stage.of_mem_newContexts h
  obtain ⟨hlineage, hle, hlt⟩ := Stage.mem_newContexts h
  rw [ρ.session_eq hgoes] at hle
  rw [← ρ.stage_succ, ρ.session_succ hgoes] at hlt
  rw [ρ.scope_stage] at hlineage
  exact ⟨⟨hle, hlt⟩, hlineage⟩

theorem Serves.owns {ρ : Course σ j} {name : String} {id : Nat} (h : ρ.Serves name id) :
    ρ.Owns id := by
  obtain ⟨k, hgoes, hhands, ⟨c, hc, -⟩ | ⟨i, t, hpoll, -⟩⟩ := h
  · refine ⟨_, .inr ⟨k, rfl, hgoes, ?_⟩, hhands⟩
    rw [(Stage.of_mem_newContexts hc).2]
    trivial
  · refine ⟨_, .inr ⟨k, rfl, hgoes, ?_⟩, hhands⟩
    rw [hpoll]
    trivial

theorem owns_of_mem_contexts {k : Nat} {c : Context} (h : c ∈ ρ.contexts k) :
    ρ.Owns c.token.id := by
  obtain ⟨m, -, hc⟩ := Stage.exists_of_mem_contexts h
  obtain ⟨hgoes, hround⟩ := Stage.of_mem_newContexts hc
  have hown : (ρ.schedule m).Own := by rw [hround]; trivial
  exact ⟨_, .inr ⟨m, rfl, hgoes, hown⟩, (ρ.handsOut_of_mem_newContexts hc).1⟩

theorem lineage_of_mem_contexts {k : Nat} {c : Context} (h : c ∈ ρ.contexts k) :
    c.token.lineage = c.token.id :: ρ.run.scope.token.lineage := Stage.mem_contexts h

/-! ## What is cancelled in turns -/

section Turns

variable (hplan : j.plan.Built) (hagents : ∀ n ∈ j.plan.nodes, n.agent.Confined P)

include hplan hagents

/-- A task cancels what its agent knows and what was handed out to its node. -/
theorem confined_task {k : Nat} {t : Task} (ht : t ∈ (ρ.stage k).run.tasks) :
    t.call.Confined fun id => P id ∨ ρ.Serves t.node.id id := by
  induction k generalizing t with
  | zero =>
      obtain ⟨ready, -, hrun, -⟩ := j.begin_eq_waiting ρ.begins
      have htasks : (ρ.stage 0).run.tasks = [] := congrArg Run.tasks hrun
      rw [htasks] at ht
      cases ht
  | succ k ih =>
      have hnode := ((Stage.Accounts.along hplan ρ.begins ρ.schedule (k + 1)).tasks t ht).1
      rcases Stage.task_after (g := ρ.stage k) ht with hold |
        ⟨i, u, call, hgoes, hmove, hu, hpoll, rfl⟩ | ⟨hgoes, v, c, hc, hname, ht⟩
      · exact ih hold
      · have hcall := ih (mem_of_getElem? hu)
        refine (hcall.poll fun id hle hlt => ?_).2 call (congrArg Prod.fst hpoll)
        rw [ρ.session_eq hgoes] at hle
        rw [hpoll, ← ρ.stage_succ, ρ.session_succ hgoes] at hlt
        exact .inr ⟨k, hgoes, ⟨hle, hlt⟩, .inr ⟨i, u, hmove, hu, rfl⟩⟩
      · have hserves : ρ.Serves t.node.id c.token.id :=
          ⟨k, hgoes, (ρ.handsOut_of_mem_newContexts hc).1, .inl ⟨c, hc, hname, rfl⟩⟩
        have hcall : (t.node.call v c).Confined fun id => P id ∨ ρ.Serves t.node.id id :=
          Node.confined_call (hagents t.node hnode) (fun _ hid => .inl hid) (.inr hserves) v
        rw [ht]
        exact hcall

theorem cancelsOnly_poll {k i : Nat} {t : Task} (hgoes : (ρ.stage k).verdict = .goesOn)
    (hmove : ρ.schedule k = .poll i) (ht : (ρ.stage k).run.tasks[i]? = some t) :
    (ρ.stage k).session.CancelsOnly (fun id => P id ∨ ρ.Serves t.node.id id)
      (ρ.stage (k + 1)).session := by
  have hafter : (ρ.stage (k + 1)).session = (t.call.poll (ρ.stage k).session).2 := by
    rw [← Stage.poll_session_of_some ht, ρ.stage_succ]
    simp only [Stage.after, hgoes, hmove]
  have hcall := ρ.confined_task hplan hagents (mem_of_getElem? ht)
  rw [hafter]
  refine (hcall.poll fun id hle hlt => ?_).1
  rw [ρ.session_eq hgoes] at hle
  rw [← hafter, ρ.session_succ hgoes] at hlt
  exact .inr ⟨k, hgoes, ⟨hle, hlt⟩, .inr ⟨i, t, hmove, ht, rfl⟩⟩

/-- In its turns a run cancels what its agents know and what it has handed out. -/
theorem cancelsOnly_turn {n : Nat} (h : ρ.Turns n) :
    (σ.session n).CancelsOnly (fun id => P id ∨ ρ.Owns id) (σ.session (n + 1)) := by
  rcases h with rfl | ⟨k, rfl, hgoes, hown⟩
  · rw [ρ.scope_eq.2]
    exact .of_eq rfl
  · have hnext : σ.session (ρ.start + 1 + k + 1) = (ρ.stage (k + 1)).session :=
      (ρ.session_succ hgoes).symm
    rw [hnext, ← ρ.session_eq hgoes]
    cases hmove : ρ.schedule k with
    | meanwhile change => simp [hmove, Move.Own] at hown
    | round =>
        have hafter : (ρ.stage (k + 1)).session = (ρ.stage k).round.session := by
          rw [ρ.stage_succ]
          simp only [Stage.after, hgoes, hmove]
        rw [hafter]
        refine (ρ.stage k).cancelsOnly_round.mono fun id hid => .inr ?_
        rw [hid, ρ.scope_stage]
        exact ρ.owns_scope
    | poll i =>
        cases ht : (ρ.stage k).run.tasks[i]? with
        | none =>
            have hafter : ρ.stage (k + 1) = ρ.stage k := by
              rw [ρ.stage_succ]
              simp only [Stage.after, hgoes, hmove, Stage.poll_of_none ht]
            rw [hafter]
            exact .refl _
        | some t =>
            refine (ρ.cancelsOnly_poll hplan hagents hgoes hmove ht).mono fun id hid => ?_
            exact hid.imp_right Serves.owns

end Turns

/-! ## Contexts of one run, and of others -/

theorem lt_of_mem_scope_lineage (hissued : (σ.session ρ.start).Issued j.context) {id : Nat}
    (hid : id ∈ ρ.run.scope.token.lineage) :
    id < (σ.session (ρ.start + 1)).registry.nextToken := by
  have hscope := hissued.derive
  rw [← ρ.scope_eq.1, ← ρ.scope_eq.2] at hscope
  exact hscope id hid

theorem Serves.le {ρ : Course σ j} {name : String} {id : Nat} (h : ρ.Serves name id) :
    (σ.session (ρ.start + 1)).registry.nextToken ≤ id := by
  obtain ⟨k, -, hhands, -⟩ := h
  exact (σ.later_of_le (Nat.le_add_right _ k)).tokens.trans hhands.1

/-- A node is not served the context of a node of another name. -/
theorem not_serves {k : Nat} {c : Context} (h : c ∈ ρ.contexts k) {name : String}
    (hname : c.node ≠ some name) : ¬ ρ.Serves name c.token.id := by
  rintro ⟨k', -, hhands, hserves⟩
  obtain ⟨m, -, hc⟩ := Stage.exists_of_mem_contexts h
  have hmoment := hhands.unique (ρ.handsOut_of_mem_newContexts hc).1
  obtain rfl : k' = m := Nat.add_left_cancel hmoment
  rcases hserves with ⟨d, hd, hdname, hid⟩ | ⟨i, t, hmove, -⟩
  · have hnodup : (((ρ.stage k').newContexts (ρ.schedule k')).map (·.token.id)).Nodup :=
      pairwise_map.mpr ((Stage.pairwise_newContexts _ _).imp fun hlt => hlt.ne)
    have hsame : d = c := inj_on_of_nodup_map hnodup hd hc hid
    exact hname (hsame ▸ hdname)
  · have hround := (Stage.of_mem_newContexts hc).2
    simp [hround] at hmove

theorem pairwise_contexts (k : Nat) : (ρ.contexts k).Pairwise (·.token.id < ·.token.id) := by
  induction k with
  | zero => exact .nil
  | succ k ih =>
      refine pairwise_append.mpr ⟨ih, Stage.pairwise_newContexts _ _, fun c hc d hd => ?_⟩
      obtain ⟨m, hm, hc⟩ := Stage.exists_of_mem_contexts hc
      have hbefore := (ρ.handsOut_of_mem_newContexts hc).1.2
      have hafter := (ρ.handsOut_of_mem_newContexts hd).1.1
      exact hbefore.trans_le ((σ.later_of_le (by omega)).tokens.trans hafter)

/-- Another run that makes its moves at other moments is foreign, if its context is. -/
theorem foreign_of_owns {j' : Job} {ρ' : Course σ j'} (hturns : ∀ n, ρ.Turns n → ¬ ρ'.Turns n)
    (hforeign : ρ.Foreign j'.context) {c : Context}
    (hc : ∀ id ∈ c.token.lineage, ρ'.Owns id ∨ id ∈ j'.context.token.lineage) : ρ.Foreign c := by
  rintro id hid ⟨n, hturn, hhands⟩
  rcases hc id hid with ⟨n', hturn', hhands'⟩ | hold
  · obtain rfl := hhands.unique hhands'
    exact hturns n hturn hturn'
  · exact hforeign id hold ⟨n, hturn, hhands⟩

/-- No context that the run hands out is one that its scope is derived from. -/
theorem notMem_scope_lineage (hissued : (σ.session ρ.start).Issued j.context) {k : Nat}
    {c : Context} (hc : c ∈ ρ.contexts k) : c.token.id ∉ ρ.run.scope.token.lineage := by
  intro hmem
  obtain ⟨m, -, hc⟩ := Stage.exists_of_mem_contexts hc
  have hle := (ρ.handsOut_of_mem_newContexts hc).1.1
  have htokens := (σ.later_of_le (Nat.le_add_right (ρ.start + 1) m)).tokens
  have hlt := ρ.lt_of_mem_scope_lineage hissued hmem
  omega

/-- The contexts of a run are not derived from one another. -/
theorem pairwise_not_under (hissued : (σ.session ρ.start).Issued j.context) (k : Nat) :
    (ρ.contexts k).Pairwise fun c d => ¬ d.Under c ∧ ¬ c.Under d := by
  refine (ρ.pairwise_contexts k).imp_of_mem fun {c d} hc hd hlt => ⟨?_, ?_⟩
  · rw [Context.Under, ρ.lineage_of_mem_contexts hd]
    exact not_mem_cons_of_ne_of_not_mem hlt.ne (ρ.notMem_scope_lineage hissued hc)
  · rw [Context.Under, ρ.lineage_of_mem_contexts hc]
    exact not_mem_cons_of_ne_of_not_mem hlt.ne' (ρ.notMem_scope_lineage hissued hd)

/-- The scope and the contexts of another run under the same caller are foreign. -/
theorem foreign_of_other (hissued : (σ.session ρ.start).Issued j.context) {j' : Job}
    (ρ' : Course σ j') (htoken : j'.context.token = j.context.token)
    (hturns : ∀ n, ρ.Turns n → ¬ ρ'.Turns n) :
    ρ.Foreign ρ'.run.scope ∧ ∀ k, ∀ c ∈ ρ'.contexts k, ρ.Foreign c := by
  have hforeign : ρ.Foreign j'.context := by
    rw [Foreign, htoken]
    exact ρ.foreign_of_issued hissued
  have hlineage : ∀ id ∈ ρ'.run.scope.token.lineage,
      ρ'.Owns id ∨ id ∈ j'.context.token.lineage := by
    intro id hid
    have howns := ρ'.owns_scope
    rw [ρ'.scope_lineage] at hid
    rcases mem_cons.mp hid with rfl | hid
    · rw [ρ'.scope_eq.1] at howns
      exact .inl howns
    · exact .inr hid
  refine ⟨ρ.foreign_of_owns hturns hforeign hlineage, fun k c hc => ?_⟩
  refine ρ.foreign_of_owns hturns hforeign fun id hid => ?_
  rw [ρ'.lineage_of_mem_contexts hc] at hid
  rcases mem_cons.mp hid with rfl | hid
  · exact .inl (ρ'.owns_of_mem_contexts hc)
  · exact hlineage id hid

/-- How far the cancellations of a run reach. -/
structure Scoped (ρ : Course σ j) (P : Nat → Prop) : Prop where
  /-- A turn of the run or of one of its tasks cancels no foreign context, unless that is derived
  from what the agents know. -/
  spares : ∀ n c, ρ.Turns n → ρ.Foreign c → c.Avoids P →
    (σ.session (n + 1)).isCancelled c = (σ.session n).isCancelled c
  /-- What was there before is foreign, the caller's context above all. -/
  callers : ∀ c, (σ.session ρ.start).Issued c → ρ.Foreign c
  /-- So are the scope and all contexts of another run under the same caller. -/
  others : ∀ (j' : Job) (ρ' : Course σ j'), j'.context.token = j.context.token →
    (∀ n, ρ.Turns n → ¬ ρ'.Turns n) →
    ρ.Foreign ρ'.run.scope ∧ ∀ k, ∀ c ∈ ρ'.contexts k, ρ.Foreign c
  /-- To cancel the context of one node does not cancel that of another. -/
  apart : ∀ k, (ρ.contexts k).Pairwise fun c d => ∀ s : Session,
    (s.cancel c).isCancelled d = s.isCancelled d ∧ (s.cancel d).isCancelled c = s.isCancelled c
  /-- Neither does it cancel the scope or the caller's context. -/
  below : ∀ k, ∀ c ∈ ρ.contexts k, ∀ s : Session,
    (s.cancel c).isCancelled ρ.run.scope = s.isCancelled ρ.run.scope ∧
    (s.cancel c).isCancelled j.context = s.isCancelled j.context
  /-- Whatever else the task of a node does, it does not cancel these either. -/
  nodes : ∀ k i t, (ρ.stage k).verdict = .goesOn → ρ.schedule k = .poll i →
    (ρ.stage k).run.tasks[i]? = some t → ∀ c,
    c = j.context ∨ c = ρ.run.scope ∨ (∃ m, c ∈ ρ.contexts m) ∧ c.node ≠ some t.node.id →
    c.Avoids P → (ρ.stage (k + 1)).session.isCancelled c = (ρ.stage k).session.isCancelled c
  /-- Once the run has returned, all contexts that it has handed out are cancelled. -/
  returned : ∀ k, (ρ.stage k).verdict ≠ .goesOn → ∀ c ∈ ρ.contexts k, ∀ s,
    (ρ.stage k).session.Later s → s.isCancelled c = true
  /-- The same holds if it is dropped, which cancels nothing that is foreign. -/
  dropped : ∀ k s, let s' := Execution.drop (.underway (ρ.stage k).run) s
    (∀ c ∈ ρ.contexts k, s'.isCancelled c = true) ∧
    ∀ c, ρ.Foreign c → s'.isCancelled c = s.isCancelled c

theorem scoped_of_confined (hplan : j.plan.Built) (hagents : ∀ n ∈ j.plan.nodes, n.agent.Confined P)
    (hissued : (σ.session ρ.start).Issued j.context) : ρ.Scoped P := by
  have hscope : ∀ {id}, id ∈ ρ.run.scope.token.lineage →
      id < (σ.session (ρ.start + 1)).registry.nextToken := ρ.lt_of_mem_scope_lineage hissued
  have hcaller : ∀ {id}, id ∈ j.context.token.lineage → id ∈ ρ.run.scope.token.lineage := by
    intro id hid
    rw [ρ.scope_lineage]
    exact mem_cons_of_mem _ hid
  have hhalt : ∀ {k c}, c ∈ ρ.contexts k → ∀ s,
      ((ρ.stage k).run.halt s).isCancelled c = true := by
    intro k c hc s
    rw [Run.halt, Session.isCancelled_cancel_iff, ρ.scope_stage]
    exact .inl (Stage.under_scope hc)
  constructor
  case spares =>
    intro n c hturn hforeign havoids
    refine (ρ.cancelsOnly_turn hplan hagents hturn).isCancelled_eq (σ.later n) ?_
    rintro id hid (hknown | howned)
    · exact havoids id hid hknown
    · exact hforeign id hid howned
  case callers => exact fun c hc => ρ.foreign_of_issued hc
  case others => exact fun j' ρ' htoken hturns => ρ.foreign_of_other hissued ρ' htoken hturns
  case apart =>
    intro k
    refine (ρ.pairwise_not_under hissued k).imp fun hnot s => ?_
    exact ⟨s.isCancelled_cancel_of_not_under hnot.1, s.isCancelled_cancel_of_not_under hnot.2⟩
  case below =>
    intro k c hc s
    have hnot := ρ.notMem_scope_lineage hissued hc
    exact ⟨s.isCancelled_cancel_of_not_under hnot,
      s.isCancelled_cancel_of_not_under fun hid => hnot (hcaller hid)⟩
  case nodes =>
    intro k i t hgoes hmove ht c hc havoids
    have hlater : (ρ.stage k).session.Later (ρ.stage (k + 1)).session := by
      rw [ρ.session_eq hgoes, ρ.session_succ hgoes]
      exact σ.later _
    refine (ρ.cancelsOnly_poll hplan hagents hgoes hmove ht).isCancelled_eq hlater ?_
    rintro id hid (hknown | hserves)
    · exact havoids id hid hknown
    · have hold : id ∉ ρ.run.scope.token.lineage := fun hmem =>
        absurd (hscope hmem) (Nat.not_lt.mpr hserves.le)
      rcases hc with rfl | rfl | ⟨⟨m, hc⟩, hname⟩
      · exact hold (hcaller hid)
      · exact hold hid
      · rw [ρ.lineage_of_mem_contexts hc] at hid
        rcases mem_cons.mp hid with rfl | hid
        · exact ρ.not_serves hc hname hserves
        · exact hold hid
  case returned =>
    intro k hover c hc s hlater
    exact hlater.isCancelled (Stage.isCancelled_of_over rfl hover (Stage.under_scope hc))
  case dropped =>
    intro k s s'
    refine ⟨fun c hc => hhalt hc s, fun c hc => ?_⟩
    have hcancels := (ρ.stage k).run.cancelsOnly_halt s
    rw [ρ.scope_stage] at hcancels
    refine hcancels.isCancelled_eq ((ρ.stage k).run.uncalled_halt s).toLater fun id hid heq => ?_
    exact hc id hid (heq ▸ ρ.owns_scope)

end Course

/-! ## Runs and policies -/

/-- A run that ends before its first move cancels nothing that was there before. -/
theorem Job.isCancelled_of_begin_ended {j : Job} {s s' : Session} {result : RunResult}
    (h : j.begin s = (.ended result, s')) {c : Context} (hc : s.Issued c) :
    s'.isCancelled c = s.isCancelled c := by
  unfold begin at h
  split at h
  · rw [(Prod.mk.inj h).2]
  · dsimp only at h
    split at h
    · rw [← (Prod.mk.inj h).2]
      exact Session.isCancelled_cancel_of_not_under _ (hc.not_under_derive _)
    · cases (Prod.mk.inj h).1

/-- Cancellation reaches what is derived from a cancelled context and nothing else. Agents that
cancel no more than what they were given and some tokens that they know do not make policies or runs
cancel anything else: a time limit cancels the context of its attempt, and a run those of its
nodes. -/
theorem cancellation_scoped (P : Nat → Prop) :
    (∀ (s : Session) (c d : Context),
      (s.cancel c).isCancelled d = true ↔ d.Under c ∨ s.isCancelled d = true) ∧
    (∀ (ι ω : Kind) (a : Agent ι ω) (p : PolicySet ι ω), a.Confined P →
      (∀ fallback ∈ p.fallback, fallback.Confined P) → a.Scoped p P) ∧
    (∀ (j : Job) (s s' : Session) (result : RunResult), j.begin s = (.ended result, s') →
      ∀ c, s.Issued c → s'.isCancelled c = s.isCancelled c) ∧
    ∀ (σ : Chronicle) (j : Job) (ρ : Course σ j), j.plan.Built →
      (∀ n ∈ j.plan.nodes, n.agent.Confined P) → (σ.session ρ.start).Issued j.context →
      ρ.Scoped P :=
  ⟨Session.isCancelled_cancel_iff, fun _ _ _ _ ha hfallback => ha.scoped hfallback,
    fun _ _ _ _ hbegin _ hc => Job.isCancelled_of_begin_ended hbegin hc,
    fun _ _ ρ hplan hagents hissued => ρ.scoped_of_confined hplan hagents hissued⟩

/-! ## A run on its own -/

theorem Stage.later_after {m : Move}
    (hm : ∀ change, m = .meanwhile change → ∀ s : Session, s.Later (change s)) (g : Stage) :
    g.session.Later (g.after m).session := by
  cases m with
  | round => exact (atOnce_after (by simp) g).toLater
  | poll i => exact (atOnce_after (by simp) g).toLater
  | meanwhile change =>
      unfold after
      split
      · simp_all
      · simp_all
      · rename_i hmove
        cases hmove
        exact hm _ rfl _
      · exact .refl _

/-- The session before the run, and after so many of its moves. -/
def Stage.sessions (g : Stage) (s : Session) (schedule : Nat → Move) : Nat → Session
  | 0 => s
  | n + 1 => (g.along schedule n).session

/-- Every run is part of what happens in some session. -/
theorem Course.exists_alone {j : Job} {s s' : Session} {r : Run}
    (hbegin : j.begin s = (.waiting r, s')) {schedule : Nat → Move}
    (hlater : ∀ k change, schedule k = .meanwhile change → ∀ s : Session, s.Later (change s)) :
    ∃ (σ : Chronicle) (ρ : Course σ j), σ.session ρ.start = s ∧ ρ.run = r ∧
      ρ.schedule = schedule := by
  obtain ⟨ready, -, -, hs'⟩ := j.begin_eq_waiting hbegin
  let session := (Stage.opening r s').sessions s schedule
  have hsession : ∀ n, (session n).Later (session (n + 1)) := by
    intro n
    cases n with
    | zero =>
        change s.Later s'
        rw [hs']
        exact (Session.AtOnce.derive s j.context).toLater
    | succ n => exact Stage.later_after (hlater n) _
  refine ⟨⟨session, hsession⟩, ⟨0, r, schedule, hbegin, ?_⟩, rfl, rfl, rfl⟩
  intro k g hgoes
  rw [Nat.zero_add, Nat.add_comm 1]
  rfl

/-- A step that cancels its context and then fails. -/
def Step.cancelling : Step where
  startFault := none
  watch := false
  detach := none
  delay := none
  waitCancel := false
  cancel := true
  conclusion := .fail "" none "gone"

/-- Agents that cancel their contexts, in an attempt or as a node. -/
theorem cancellation_scoped_cancelling :
    let a : Agent .text .text := .scripted 0 "a" "a" .shared .cancelling []
    let b : Agent .text .text := .scripted 1 "b" "b" .shared .cancelling []
    let j : Job := ⟨⟨[⟨"a", .text, .text, a⟩, ⟨"b", .text, .text, b⟩], [], [], ["a", "b"]⟩,
      ⟨[("a", .text "x"), ("b", .text "y")]⟩, none, ⟨0, ⟨0, []⟩, none⟩⟩
    a.Scoped ⟨some (.fixed 2 .zero), some (.ofMillis 5), some b⟩ (fun _ => False) ∧
    ∃ (σ : Chronicle) (ρ : Course σ j), ρ.schedule = .inTurn ∧ ρ.Scoped fun _ => False := by
  intro a b j
  obtain ⟨-, hpolicies, -, hruns⟩ := cancellation_scoped fun _ => False
  have ha : a.Confined fun _ => False := Agent.confined_scripted 0 "a" "a" .shared .cancelling []
  have hb : b.Confined fun _ => False := Agent.confined_scripted 1 "b" "b" .shared .cancelling []
  constructor
  · refine hpolicies _ _ a _ ha fun fallback hfallback => ?_
    obtain rfl : b = fallback := Option.mem_some.mp hfallback
    exact hb
  · have hlater : ∀ k change, Move.inTurn k = .meanwhile change →
        ∀ s : Session, s.Later (change s) := by
      intro k change hchange
      unfold Move.inTurn at hchange
      split at hchange <;> cases hchange
    have hbegin : ∃ r s', j.begin .second = (.waiting r, s') := ⟨_, _, rfl⟩
    obtain ⟨r, s', hbegin⟩ := hbegin
    obtain ⟨σ, ρ, hstart, -, hschedule⟩ := Course.exists_alone hbegin hlater
    refine ⟨σ, ρ, hschedule, hruns σ j ρ ⟨⟨j.plan.nodes, []⟩, by rfl⟩ ?_ ?_⟩
    · intro n hn
      rcases mem_pair.mp hn with rfl | rfl
      · exact ha
      · exact hb
    · rw [hstart]
      intro id hid
      obtain rfl := mem_singleton.mp hid
      decide

end Orchestration
