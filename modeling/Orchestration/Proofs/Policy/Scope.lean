import Orchestration.Policy.Set
import Orchestration.Proofs.Call.Confinement
import Orchestration.Script

/-! # What policies cancel

Policies cancel nothing of their own accord but the context of an attempt whose time is over, which
is derived for that attempt alone. So a time limit also keeps an agent from cancelling the context
that further attempts and the stand-in are given. -/

namespace Orchestration

open List

variable {ι ω : Kind} {A P : Nat → Prop}

theorem confined_captureFault {α : Type} (name : String) (ending : Ending α) :
    (captureFault name ending).Confined A := by
  cases ending <;> trivial

theorem confined_withCopy {κ : Kind} {α : Type} {next : Datum κ → Call α}
    (h : ∀ copy, (next copy).Confined A) (d : Datum κ) (earlier : Nat) :
    (withCopy d earlier next).Confined A := by
  unfold withCopy
  split
  · exact h _
  · trivial

namespace Agent

/-- Beside these tokens and the ones handed out to it, the agent cancels the context that it is
given, and no other. -/
def Confined (P : Nat → Prop) (a : Agent ι ω) : Prop :=
  ∀ A : Nat → Prop, (∀ id, P id → A id) → ∀ input c, A c.token.id → (a.start input c).Confined A

/-- The agent does not cancel the context that it is given either. -/
def Spares (P : Nat → Prop) (a : Agent ι ω) : Prop :=
  ∀ A : Nat → Prop, (∀ id, P id → A id) → ∀ input c, (a.start input c).Confined A

variable {a : Agent ι ω}

theorem Spares.confined (h : a.Spares P) : a.Confined P :=
  fun _ hA input _ _ => h _ hA input _

theorem confined_execute {input : Datum ι} {c : Context} (h : (a.start input c).Confined A) :
    (a.execute input c).Confined A :=
  ⟨h, confined_captureFault a.name⟩

theorem Confined.execute (h : a.Confined P) (hA : ∀ id, P id → A id) (input : Datum ι) {c : Context}
    (hc : A c.token.id) : (a.execute input c).Confined A :=
  confined_execute (h A hA input c hc)

/-! ## Policies -/

/-- A time limit cancels the context of its attempt, and the agent knows no other. -/
theorem Confined.spares_timingOut (h : a.Confined P) (limit : Duration) :
    (a.timingOut limit).Spares P := by
  intro A hA input c
  refine ⟨trivial, fun attempt hattempt => ⟨trivial, fun deadline _ => ⟨hattempt, ?_⟩⟩⟩
  exact h.execute hA input hattempt

theorem confined_attempts {c : Context} (h : ∀ input, (a.execute input c).Confined A)
    (backoff : Backoff) (input : Datum ι) (left failures : Nat) :
    (a.attempts backoff input c left failures).Confined A := by
  induction left generalizing failures with
  | zero =>
      rw [attempts]
      apply confined_withCopy
      intro copy
      refine ⟨h copy, fun ending => ?_⟩
      cases ending with
      | failure f => by_cases hf : f.recoverable = true <;> simp [hf, Call.Confined]
      | value v => trivial
      | fault f => trivial
  | succ left ih =>
      rw [attempts]
      apply confined_withCopy
      intro copy
      refine ⟨h copy, fun ending => ?_⟩
      cases ending with
      | failure f =>
          by_cases hf : f.recoverable = true
          · simp only [hf, if_true]
            refine ⟨trivial, fun cancelled _ => ?_⟩
            cases cancelled with
            | true => trivial
            | false => exact (ih (failures + 1)).sleep _
          · simp [hf, Call.Confined]
      | value v => trivial
      | fault f => trivial

theorem Confined.retrying (h : a.Confined P) (p : RetryPolicy) : (a.retrying p).Confined P :=
  fun _ hA input _ hc =>
    confined_attempts (fun copy => h.execute hA copy hc) p.backoff input p.furtherAttempts 0

theorem Spares.retrying (h : a.Spares P) (p : RetryPolicy) : (a.retrying p).Spares P :=
  fun _ hA input _ => confined_attempts (fun copy => confined_execute (h _ hA copy _)) p.backoff
    input p.furtherAttempts 0

theorem Confined.orElse {fallback : Agent ι ω} (h : a.Confined P)
    (hfallback : fallback.Confined P) :
    (a.orElse fallback).Confined P := by
  intro A hA input c hc
  apply confined_withCopy
  intro copy
  refine ⟨h.execute hA copy hc, fun ending => ?_⟩
  cases ending with
  | failure f =>
      by_cases hf : f.recoverable = true
      · simp only [hf, if_true]
        refine ⟨hfallback.execute hA input hc, fun ending => ?_⟩
        cases ending <;> trivial
      · simp [hf, Call.Confined]
  | value v => trivial
  | fault f => trivial

/-- Policies cancel nothing that the agents do not. -/
theorem Confined.withPolicies (h : a.Confined P) (p : PolicySet ι ω)
    (hfallback : ∀ fallback ∈ p.fallback, fallback.Confined P) : (a.withPolicies p).Confined P := by
  obtain ⟨retry, timeout, fallback⟩ := p
  have htimed : (timeout.elim a a.timingOut).Confined P := by
    cases timeout with
    | none => exact h
    | some limit => exact (h.spares_timingOut limit).confined
  have hretried : (retry.elim (timeout.elim a a.timingOut)
      (timeout.elim a a.timingOut).retrying).Confined P := by
    cases retry with
    | none => exact htimed
    | some p => exact htimed.retrying p
  cases fallback with
  | none => exact hretried
  | some fallback => exact hretried.orElse (hfallback fallback rfl)

/-- Under a time limit all attempts spare the context that they are given. -/
theorem Confined.spares_withPolicies (h : a.Confined P) (retry : Option RetryPolicy)
    (limit : Duration) : (a.withPolicies ⟨retry, some limit, none⟩).Spares P := by
  cases retry with
  | none => exact h.spares_timingOut limit
  | some p => exact (h.spares_timingOut limit).retrying p

end Agent

/-! ## Scripted agents -/

namespace Scene

theorem confined_doIf {α : Type} {wanted : Option Action} {next : Call α}
    (hwanted : ∀ action ∈ wanted, action.Within A) (h : next.Confined A) :
    (doIf wanted next).Confined A := by
  cases wanted with
  | none => exact h
  | some action => exact ⟨hwanted action rfl, fun _ _ => h⟩

/-- A played step cancels no context but its own. -/
theorem confined_play (scene : Scene ι) {c : Context} (hc : A c.token.id) (step : Step) :
    (scene.play ω c step).Confined A := by
  have hcancelling : (doIf (if step.cancel then some (.cancel c) else none)
      (scene.conclude ω c.node step.conclusion)).Confined A := by
    apply confined_doIf
    · cases step.cancel <;> simp [Action.Within, hc]
    · exact ⟨trivial, fun _ _ => trivial⟩
  have hwaiting : (if step.waitCancel then Call.await (.cancellation c)
      (doIf (if step.cancel then some (.cancel c) else none)
        (scene.conclude ω c.node step.conclusion))
      else doIf (if step.cancel then some (.cancel c) else none)
        (scene.conclude ω c.node step.conclusion)).Confined A := by
    split <;> exact hcancelling
  unfold play
  split
  · trivial
  · apply confined_doIf
    · cases step.watch <;> simp [Action.Within]
    apply confined_doIf
    · cases step.detach <;> simp [Action.Within]
    cases step.delay with
    | none => exact hwaiting
    | some d => exact hwaiting.sleep d.waitMillis

end Scene

theorem Agent.confined_scripted (serial : Nat) (name who : String) (setting : Setting) (first : Step)
    (rest : List Step) :
    (scripted serial name who setting first rest : Agent ι ω).Confined fun _ => False := by
  intro A _ input c hc
  refine ⟨trivial, fun call _ => ⟨trivial, fun _ _ => ?_⟩⟩
  cases setting with
  | immediate => exact ⟨trivial, fun _ _ => trivial⟩
  | secluded => exact ⟨trivial, fun own hown => Scene.confined_play _ hown _⟩
  | shared => exact Scene.confined_play _ hc _

/-- A timed attempt works under a context of its own until its deadline. -/
theorem Agent.poll_timingOut (a : Agent ι ω) (limit : Duration) (input : Datum ι) (c : Context)
    (s : Session) : ((a.timingOut limit).start input c).poll s =
      (Call.within ⟨s.now + limit.waitMillis, s.timers⟩ (s.derive c).1
        (.failure (.timeout (c.node.getD "") limit)) (a.execute input (s.derive c).1)).poll
          ((s.derive c).2.setTimer limit.waitMillis).2 := rfl

/-! ## The scope of a policy set -/

/-- What an agent under policies cancels, as long as it goes on and when it is dropped. -/
structure Agent.Scoped (a : Agent ι ω) (p : PolicySet ι ω) (P : Nat → Prop) : Prop where
  /-- Whatever a poll cancels is derived from a token of those that the agents cancel, from the
  context that was given, or from one that the call itself was handed out. -/
  cancels : ∀ input c first rest s d, ((a.withPolicies p).start input c).Continues first rest →
    first ≤ s.registry.nextToken → (rest.poll s).2.isCancelled d = true →
    s.isCancelled d = true ∨ ∃ id ∈ d.token.lineage, P id ∨ id = c.token.id ∨ first ≤ id
  /-- Under a time limit, the attempts do not cancel the context that was given. -/
  spares : ∀ limit input c first rest s d,
    ((a.withPolicies ⟨p.retry, some limit, none⟩).start input c).Continues first rest →
    first ≤ s.registry.nextToken → (rest.poll s).2.isCancelled d = true →
    s.isCancelled d = true ∨ ∃ id ∈ d.token.lineage, P id ∨ first ≤ id
  /-- The context of a timed attempt is a new one, and the context that was given is not derived
  from it. When its time is over, exactly the context of the attempt is cancelled. -/
  expires : ∀ limit input c s, s.Issued c →
    let attempt := (s.derive c).1
    let late : Ending (Datum ω) := .failure (.timeout (c.node.getD "") limit)
    let deadline : Timer := ⟨s.now + limit.waitMillis, s.timers⟩
    ¬ c.Under attempt ∧
    ((a.timingOut limit).start input c).poll s =
      (Call.within deadline attempt late (a.execute input attempt)).poll
        ((s.derive c).2.setTimer limit.waitMillis).2 ∧
    ∀ body rest s₁ s₂, body.poll s₁ = (.waiting rest, s₂) → deadline.due ≤ s₂.now →
      (Call.within deadline attempt late body).poll s₁ =
        (.ended late, (rest.drop s₂).cancel attempt) ∧
      ∀ d, ((rest.drop s₂).cancel attempt).isCancelled d = true ↔
        d.Under attempt ∨ s₂.isCancelled d = true
  /-- Dropping cancels nothing. -/
  dropped : ∀ (call : Call (Datum ω)) (s : Session) (d : Context),
    (call.drop s).isCancelled d = s.isCancelled d

theorem Agent.Confined.scoped {a : Agent ι ω} (h : a.Confined P) {p : PolicySet ι ω}
    (hfallback : ∀ fallback ∈ p.fallback, fallback.Confined P) : a.Scoped p P := by
  have hpoll : ∀ {A : Nat → Prop} {call rest : Call (Datum ω)} {first : Nat} {s : Session}
      (d : Context), call.Confined A → (∀ id, first ≤ id → A id) → call.Continues first rest →
      first ≤ s.registry.nextToken → (rest.poll s).2.isCancelled d = true →
      s.isCancelled d = true ∨ ∃ id ∈ d.token.lineage, A id := by
    intro A call rest first s d hcall hfirst hrest hs hd
    have hconfined := hcall.of_continues hfirst hrest
    exact (hconfined.poll fun id hle _ => hfirst id (Nat.le_trans hs hle)).1.exists_of_isCancelled hd
  constructor
  case cancels =>
    intro input c first rest s d hrest hs hd
    refine hpoll d (h.withPolicies p hfallback _ ?_ input c ?_) ?_ hrest hs hd
    · exact fun id hid => .inl hid
    · exact .inr (.inl rfl)
    · exact fun id hid => .inr (.inr hid)
  case spares =>
    intro limit input c first rest s d hrest hs hd
    refine hpoll d (h.spares_withPolicies p.retry limit _ ?_ input c) ?_ hrest hs hd
    · exact fun id hid => .inl hid
    · exact fun id hid => .inr hid
  case expires =>
    intro limit input c s hissued attempt late deadline
    exact ⟨hissued.not_under_derive c, a.poll_timingOut limit input c s,
      fun body rest s₁ s₂ hbody hdue => Call.poll_within_of_due hbody hdue⟩
  case dropped =>
    intro call s d
    rw [Session.isCancelled, Call.drop_registry]
    rfl

end Orchestration
