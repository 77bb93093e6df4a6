import Orchestration.Proofs.Call.Effects

/-! # Calls that nothing tells apart

Two calls are alike if polls of them, in whatever sessions, always do the same: they change the
session in the same way, and either both end, in the same way, or both wait for the same and leave
the same behind when they are dropped. What is made in the same way from calls that are alike is
alike. -/

namespace Orchestration.Call

variable {α : Type}

/-- The outcomes of two polls: the same ending, or the same waits and calls that are related, and
the same session. -/
inductive Agree (R : Call α → Call α → Prop) :
    Progress (Call α) (Ending α) × Session → Progress (Call α) (Ending α) × Session → Prop where
  | ended (ending : Ending α) (s : Session) : Agree R (.ended ending, s) (.ended ending, s)
  | waiting {rest rest' : Call α} (s : Session) (htimer : rest.nextTimer = rest'.nextTimer)
      (hguards : rest.guards = rest'.guards) (hrest : R rest rest') :
      Agree R (.waiting rest, s) (.waiting rest', s)

/-- Related calls do the same when they are polled, and what is left of them is related again. -/
def Bisimulation (R : Call α → Call α → Prop) : Prop :=
  ∀ call call', R call call' → ∀ s, Agree R (call.poll s) (call'.poll s)

/-- Nothing tells the calls apart. -/
def Alike (call call' : Call α) : Prop := ∃ R, Bisimulation R ∧ R call call'

theorem Agree.mono {R R' : Call α → Call α → Prop}
    {outcome outcome' : Progress (Call α) (Ending α) × Session} (h : Agree R outcome outcome')
    (hR : ∀ call call', R call call' → R' call call') : Agree R' outcome outcome' := by
  cases h with
  | ended ending s => exact .ended ending s
  | waiting s htimer hguards hrest => exact .waiting s htimer hguards (hR _ _ hrest)

theorem Agree.refl {R : Call α → Call α → Prop} (hR : ∀ call, R call call)
    (outcome : Progress (Call α) (Ending α) × Session) : Agree R outcome outcome := by
  obtain ⟨state, s⟩ := outcome
  cases state with
  | ended ending => exact .ended ending s
  | waiting rest => exact .waiting s rfl rfl (hR rest)

namespace Alike

variable {call call' : Call α}

/-- Calls that are alike stay so. -/
theorem poll (h : Alike call call') (s : Session) :
    Agree Alike (call.poll s) (call'.poll s) := by
  obtain ⟨R, hR, hrel⟩ := h
  exact (hR call call' hrel s).mono fun _ _ hrel' => ⟨R, hR, hrel'⟩

/-- Calls are alike if polls of them do the same and leave calls that are alike or related again. -/
theorem of_polls {R : Call α → Call α → Prop} (h : ∀ call call', R call call' → ∀ s,
      Agree (fun c c' => R c c' ∨ Alike c c') (call.poll s) (call'.poll s))
    (hrel : R call call') : Alike call call' := by
  refine ⟨fun c c' => R c c' ∨ Alike c c', ?_, .inl hrel⟩
  rintro c c' (hc | hc) s
  · exact h c c' hc s
  · exact (hc.poll s).mono fun _ _ hrel' => .inr hrel'

theorem refl (call : Call α) : Alike call call := by
  refine ⟨Eq, ?_, rfl⟩
  rintro c _ rfl s
  exact .refl (fun _ => rfl) _

/-- Calls are alike if their next polls do the same and leave calls that are alike. -/
theorem of_poll (h : ∀ s, Agree Alike (call.poll s) (call'.poll s)) : Alike call call' := by
  refine of_polls (R := fun c c' => c = call ∧ c' = call') ?_ ⟨rfl, rfl⟩
  rintro _ _ ⟨rfl, rfl⟩ s
  exact (h s).mono fun _ _ hrel => .inr hrel

/-! ## Calls made from calls that are alike -/

theorem act {action : Action} {next next' : action.Answer → Call α}
    (h : ∀ answer, Alike (next answer) (next' answer)) :
    Alike (.act action next) (.act action next') :=
  of_poll fun s => (h (s.perform action).1).poll (s.perform action).2

theorem await {next next' : Call α} (wake : Wake) (h : Alike next next') :
    Alike (.await wake next) (.await wake next') := by
  refine of_polls (R := fun c c' => c = .await wake next ∧ c' = .await wake next') ?_ ⟨rfl, rfl⟩
  rintro _ _ ⟨rfl, rfl⟩ s
  rw [Call.poll, Call.poll]
  split
  · exact (h.poll s).mono fun _ _ hrel => .inr hrel
  · refine .waiting s ?_ rfl (.inl ⟨rfl, rfl⟩)
    cases wake <;> rfl

theorem sleep {next next' : Call α} (millis : Nat) (h : Alike next next') :
    Alike (.sleep millis next) (.sleep millis next') :=
  act fun t => await (.timer t) h

theorem within (deadline : Timer) (scope : Context) (late : Ending α) (h : Alike call call') :
    Alike (.within deadline scope late call) (.within deadline scope late call') := by
  refine of_polls (R := fun c c' => ∃ body body', Alike body body' ∧
    c = .within deadline scope late body ∧ c' = .within deadline scope late body') ?_
    ⟨call, call', h, rfl, rfl⟩
  rintro _ _ ⟨body, body', hbody, rfl, rfl⟩ s
  have hpoll := hbody.poll s
  rw [Call.poll, Call.poll]
  generalize body.poll s = outcome, body'.poll s = outcome' at hpoll ⊢
  cases hpoll with
  | ended ending s' => exact .ended ending s'
  | @waiting rest rest' s' htimer hguards hrest =>
      dsimp only
      split
      · rw [drop_eq, drop_eq, hguards]
        exact .ended late _
      · refine .waiting s' ?_ hguards (.inl ⟨rest, rest', hrest, rfl, rfl⟩)
        rw [nextTimer, nextTimer, htimer]

theorem andThen {next next' : Ending α → Call α} (h : Alike call call')
    (hnext : ∀ ending, Alike (next ending) (next' ending)) :
    Alike (.andThen call next) (.andThen call' next') := by
  refine of_polls (R := fun c c' => ∃ body body', Alike body body' ∧
    c = .andThen body next ∧ c' = .andThen body' next') ?_ ⟨call, call', h, rfl, rfl⟩
  rintro _ _ ⟨body, body', hbody, rfl, rfl⟩ s
  have hpoll := hbody.poll s
  rw [Call.poll, Call.poll]
  generalize body.poll s = outcome, body'.poll s = outcome' at hpoll ⊢
  cases hpoll with
  | ended ending s' => exact ((hnext ending).poll s').mono fun _ _ hrel => .inr hrel
  | @waiting rest rest' s' htimer hguards hrest =>
      exact .waiting s' htimer hguards (.inl ⟨rest, rest', hrest, rfl, rfl⟩)

end Alike

end Orchestration.Call
