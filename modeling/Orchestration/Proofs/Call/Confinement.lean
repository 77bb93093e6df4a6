import Mathlib.Logic.Relation
import Orchestration.Proofs.Call.Effects

/-! # What calls cancel

A call is confined to some tokens if, whatever it is told, it cancels no others, provided that the
tokens it is handed out itself are among them. Then polls of it cancel no others, so a context that
is derived from none of these tokens is left alone. -/

namespace Orchestration

open List Relation

/-- The first context is the second one or derived from it. -/
def Context.Under (c d : Context) : Prop := d.token.id ∈ c.token.lineage

theorem Session.isCancelled_cancel_iff (s : Session) (c d : Context) :
    (s.cancel c).isCancelled d = true ↔ d.Under c ∨ s.isCancelled d = true := by
  simp [isCancelled_cancel, Context.Under]

/-- All tokens that the context is made of have been handed out. -/
def Session.Issued (s : Session) (c : Context) : Prop :=
  ∀ id ∈ c.token.lineage, id < s.registry.nextToken

/-- A derived context has a token that has not been handed out before. -/
theorem Session.derive_lineage (s : Session) (c : Context) :
    (s.derive c).1.token.lineage = s.registry.nextToken :: c.token.lineage := rfl

theorem Session.Issued.later {s s' : Session} {c : Context} (h : s.Issued c) (hlater : s.Later s') :
    s'.Issued c :=
  fun id hid => Nat.lt_of_lt_of_le (h id hid) hlater.tokens

theorem Session.Issued.derive {s : Session} {c : Context} (h : s.Issued c) :
    (s.derive c).2.Issued (s.derive c).1 := by
  intro id hid
  rw [derive_lineage] at hid
  rcases mem_cons.mp hid with rfl | hid
  · exact Nat.lt_succ_self _
  · exact Nat.lt_succ_of_lt (h id hid)

/-- No context that was there before is derived from one that has just been derived. -/
theorem Session.Issued.not_under_derive {s : Session} {c : Context} (h : s.Issued c)
    (d : Context) : ¬ c.Under (s.derive d).1 :=
  fun hunder => Nat.lt_irrefl _ (h _ hunder)

/-! ## Between two sessions -/

variable {A : Nat → Prop}

/-- From the first session to the second, no tokens but these were cancelled, and no cancellation
was undone. -/
def Session.CancelsOnly (A : Nat → Prop) (s s' : Session) : Prop :=
  ∃ ids, s'.registry.cancelled = ids ++ s.registry.cancelled ∧ ∀ id ∈ ids, A id

namespace Session.CancelsOnly

variable {s s' s'' : Session}

theorem of_eq (h : s'.registry.cancelled = s.registry.cancelled) : s.CancelsOnly A s' :=
  ⟨[], by simpa using h, by simp⟩

theorem refl (s : Session) : s.CancelsOnly A s := of_eq rfl

theorem trans (h : s.CancelsOnly A s') (h' : s'.CancelsOnly A s'') : s.CancelsOnly A s'' := by
  obtain ⟨ids, hids, hA⟩ := h
  obtain ⟨ids', hids', hA'⟩ := h'
  refine ⟨ids' ++ ids, by rw [hids', hids, append_assoc], ?_⟩
  intro id hid
  exact (mem_append.mp hid).elim (hA' id) (hA id)

theorem cancel (s : Session) {c : Context} (h : A c.token.id) : s.CancelsOnly A (s.cancel c) := by
  refine ⟨[c.token.id], ?_, by simpa using h⟩
  rw [cancel_registry]
  rfl

theorem mono {B : Nat → Prop} (h : s.CancelsOnly A s') (hAB : ∀ id, A id → B id) :
    s.CancelsOnly B s' := by
  obtain ⟨ids, hids, hA⟩ := h
  exact ⟨ids, hids, fun id hid => hAB id (hA id hid)⟩

/-- A context is cancelled by then only if it was before, or it is derived from one of the
tokens. -/
theorem exists_of_isCancelled (h : s.CancelsOnly A s') {c : Context}
    (hc : s'.isCancelled c = true) :
    s.isCancelled c = true ∨ ∃ id ∈ c.token.lineage, A id := by
  obtain ⟨ids, hids, hA⟩ := h
  simp only [Session.isCancelled, Registry.isCancelled, any_eq_true, decide_eq_true_eq] at hc ⊢
  obtain ⟨id, hid, hcancelled⟩ := hc
  rw [hids] at hcancelled
  rcases mem_append.mp hcancelled with hnew | hold
  · exact .inr ⟨id, hid, hA id hnew⟩
  · exact .inl ⟨id, hid, hold⟩

end Session.CancelsOnly

/-! ## Confined calls -/

namespace Action

/-- The action cancels none but these tokens. -/
def Within (A : Nat → Prop) : Action → Prop
  | cancel c => A c.token.id
  | timer _ | number _ | record _ | inspect _ | derive _ | isolate | watch .. | detach .. => True

/-- A context that the action hands out has one of these tokens. -/
def Hands (A : Nat → Prop) : (a : Action) → a.Answer → Prop
  | derive _, c => A (Context.token c).id
  | isolate, c => A (Context.token c).id
  | timer _, _ | number _, _ | record _, _ | inspect _, _ | cancel _, _ | watch .., _
  | detach .., _ => True

theorem Within.cancelsOnly {a : Action} (h : a.Within A) (s : Session) :
    s.CancelsOnly A (s.perform a).2 := by
  cases a with
  | cancel c => exact .cancel s h
  | watch c event =>
      apply Session.CancelsOnly.of_eq
      simp only [Session.perform, Session.watch]
      split <;> rfl
  | timer | number | record | inspect | derive | isolate | detach => exact .refl s

/-- What is handed out has the next token. -/
theorem hands_perform (a : Action) (s : Session)
    (h : ∀ id, s.registry.nextToken ≤ id → id < (s.perform a).2.registry.nextToken → A id) :
    a.Hands A (s.perform a).1 := by
  cases a with
  | derive c => exact h _ (Nat.le_refl _) (Nat.lt_succ_self _)
  | isolate => exact h _ (Nat.le_refl _) (Nat.lt_succ_self _)
  | timer | number | record | inspect | cancel | watch | detach => trivial

end Action

namespace Call

variable {α : Type}

/-- Whatever it is told, the call cancels none but these tokens. -/
def Confined (A : Nat → Prop) : Call α → Prop
  | finish _ => True
  | act action next => action.Within A ∧ ∀ answer, action.Hands A answer → (next answer).Confined A
  | await _ next => next.Confined A
  | guarded _ body => body.Confined A
  | within _ scope _ body => A scope.token.id ∧ body.Confined A
  | andThen body next => body.Confined A ∧ ∀ ending, (next ending).Confined A

theorem Confined.sleep {next : Call α} (h : next.Confined A) (millis : Nat) :
    (Call.sleep millis next).Confined A :=
  ⟨trivial, fun _ _ => h⟩

theorem cancelsOnly_drop (call : Call α) (s : Session) : s.CancelsOnly A (call.drop s) :=
  .of_eq (by rw [drop_registry])

/-- A poll of a confined call cancels none but these tokens, and what is left is confined to
them. -/
theorem Confined.poll {call : Call α} (h : call.Confined A) {s : Session}
    (hfresh : ∀ id, s.registry.nextToken ≤ id → id < (call.poll s).2.registry.nextToken → A id) :
    s.CancelsOnly A (call.poll s).2 ∧
      ∀ rest, (call.poll s).1 = .waiting rest → rest.Confined A := by
  induction call generalizing s with
  | finish ending => exact ⟨.refl s, by simp [Call.poll]⟩
  | act action next ih =>
      obtain ⟨hwithin, hnext⟩ := h
      have hperform := (Session.AtOnce.perform s action).tokens
      have hpoll := ((next (s.perform action).1).atOnce_poll (s.perform action).2).tokens
      rw [Call.poll] at hfresh ⊢
      have hanswer := action.hands_perform s fun id hle hlt =>
        hfresh id hle (Nat.lt_of_lt_of_le hlt hpoll)
      obtain ⟨hcancels, hrest⟩ := ih (s.perform action).1 (hnext _ hanswer) fun id hle hlt =>
        hfresh id (Nat.le_trans hperform hle) hlt
      exact ⟨(hwithin.cancelsOnly s).trans hcancels, hrest⟩
  | await wake next ih =>
      rw [Call.poll] at hfresh ⊢
      split
      · rename_i hholds
        rw [if_pos hholds] at hfresh
        exact ih h hfresh
      · refine ⟨.refl s, fun rest hrest => ?_⟩
        cases hrest
        exact h
  | guarded onDrop body ih =>
      have hbody := ih h (s := s)
      rw [Call.poll] at hfresh ⊢
      cases hpoll : body.poll s with
      | mk state s' =>
          rw [hpoll] at hbody hfresh
          cases state with
          | ended ending => exact ⟨(hbody hfresh).1, by simp⟩
          | waiting rest =>
              refine ⟨(hbody hfresh).1, fun rest' hrest => ?_⟩
              cases hrest
              exact (hbody hfresh).2 rest rfl
  | within deadline scope late body ih =>
      have hbody := ih h.2 (s := s)
      rw [Call.poll] at hfresh ⊢
      cases hpoll : body.poll s with
      | mk state s' =>
          rw [hpoll] at hbody hfresh
          cases state with
          | ended ending => exact ⟨(hbody hfresh).1, by simp⟩
          | waiting rest =>
              dsimp only at hfresh ⊢
              split
              · rename_i hdue
                rw [if_pos hdue, Session.cancel_registry, drop_registry] at hfresh
                refine ⟨(hbody hfresh).1.trans ((cancelsOnly_drop rest s').trans ?_), by simp⟩
                exact .cancel _ h.1
              · rename_i hdue
                rw [if_neg hdue] at hfresh
                refine ⟨(hbody hfresh).1, fun rest' hrest => ?_⟩
                cases hrest
                exact ⟨h.1, (hbody hfresh).2 rest rfl⟩
  | andThen body next ih ihnext =>
      have hbody := ih h.1 (s := s)
      have hlater := (body.atOnce_poll s).tokens
      rw [Call.poll] at hfresh ⊢
      cases hpoll : body.poll s with
      | mk state s' =>
          rw [hpoll] at hbody hfresh hlater
          cases state with
          | ended ending =>
              dsimp only at hfresh hlater ⊢
              have hmore := ((next ending).atOnce_poll s').tokens
              obtain ⟨hcancels, -⟩ := hbody fun id hle hlt => hfresh id hle
                (Nat.lt_of_lt_of_le hlt hmore)
              obtain ⟨hcancels', hrest⟩ := ihnext ending (h.2 ending) fun id hle hlt =>
                hfresh id (Nat.le_trans hlater hle) hlt
              exact ⟨hcancels.trans hcancels', hrest⟩
          | waiting rest =>
              refine ⟨(hbody hfresh).1, fun rest' hrest => ?_⟩
              cases hrest
              exact ⟨(hbody hfresh).2 rest rfl, h.2⟩

/-! ## A deadline -/

section Deadline

variable {deadline : Timer} {scope : Context} {late : Ending α} {body rest : Call α} {s s' : Session}

/-- At its deadline work that is not done is dropped, and exactly its own context is cancelled. -/
theorem poll_within_of_due (hbody : body.poll s = (.waiting rest, s'))
    (hdue : deadline.due ≤ s'.now) :
    (within deadline scope late body).poll s = (.ended late, (rest.drop s').cancel scope) ∧
      ∀ d, ((rest.drop s').cancel scope).isCancelled d = true ↔
        d.Under scope ∨ s'.isCancelled d = true := by
  constructor
  · rw [poll, hbody]
    exact if_pos hdue
  · intro d
    rw [Session.isCancelled_cancel_iff, Session.isCancelled, drop_registry]
    rfl

/-- Before that it goes on under the same context. -/
theorem poll_within_of_not_due (hbody : body.poll s = (.waiting rest, s'))
    (hdue : ¬ deadline.due ≤ s'.now) :
    (within deadline scope late body).poll s = (.waiting (within deadline scope late rest), s') := by
  rw [poll, hbody]
  exact if_neg hdue

end Deadline

/-! ## Calls over time -/

/-- What is left of the call after some polls, in sessions that had handed out so many tokens. -/
def Continues (first : Nat) (call rest : Call α) : Prop :=
  ReflTransGen (fun call rest => ∃ s s', first ≤ s.registry.nextToken ∧
    call.poll s = (.waiting rest, s')) call rest

/-- A call that is confined to some old tokens and all new ones is so as long as it goes on. -/
theorem Confined.of_continues {first : Nat} {call rest : Call α} (hfirst : ∀ id, first ≤ id → A id)
    (h : call.Confined A) (hrest : call.Continues first rest) : rest.Confined A := by
  induction hrest with
  | refl => exact h
  | tail _ hpoll ih =>
      obtain ⟨s, s', hs, hpoll⟩ := hpoll
      exact (ih.poll fun id hle _ => hfirst id (Nat.le_trans hs hle)).2 _ (congrArg Prod.fst hpoll)

end Call

end Orchestration
