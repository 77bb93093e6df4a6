import Orchestration.Proofs.Timeline.Instants

/-! # One engagement among others

What turns of its own keep holds of some work on a timeline as long as the others there, if there
are any, cannot undo it. -/

namespace Orchestration.Timeline

open List

variable {τ ρ : Type}

/-! ## No engagement is lost -/

theorem length_sweep (step : Engagement τ → Session → Slot τ ρ × Session) (slots : List (Slot τ ρ))
    (s : Session) : (sweep step slots s).1.length = slots.length := by
  induction slots generalizing s with
  | nil => rfl
  | cons slot slots ih =>
      cases slot with
      | ended report => exact congrArg (· + 1) (ih s)
      | waiting e => exact congrArg (· + 1) (ih (step e s).2)

variable [Activity τ ρ]

theorem length_taskTurn (slots : List (Slot τ ρ)) (s : Session) :
    (taskTurn slots s).1.length = slots.length :=
  taskTurn_invariant (P := fun slots' _ => slots'.length = slots.length)
    (fun _ slots' s' h => (length_sweep _ slots' s').trans h) rfl

theorem length_takeTurns (start fuel : Nat) (slots : List (Slot τ ρ)) (s : Session) :
    (takeTurns start fuel slots s).1.length = slots.length := by
  induction fuel generalizing slots s with
  | zero => rfl
  | succ fuel ih =>
      have hturn := (length_sweep (Engagement.ownTurn · start) (taskTurn slots s).1
        (taskTurn slots s).2).trans (length_taskTurn slots s)
      rw [takeTurns]
      dsimp only
      split
      · exact (ih _ _).trans hturn
      · exact hturn

theorem length_instant (start : Nat) (slots : List (Slot τ ρ)) (s : Session) :
    (instant start slots s).1.length = slots.length :=
  (length_takeTurns _ _ _ _).trans ((length_sweep _ _ _).trans (length_sweep _ _ _))

/-! ## What others leave alone -/

/-- What others do at any time does not undo the predicate, or there are no others. -/
def Undisturbed (I : τ → Session → Prop) (slots : List (Slot τ ρ)) : Prop :=
  (∀ work s s', s.AtOnce s' → I work s → I work s') ∨ slots.length = 1

variable {I : τ → Session → Prop} {slots slots' : List (Slot τ ρ)} {i : Nat} {e : Engagement τ}

omit [Activity τ ρ] in
theorem Undisturbed.of_length (h : Undisturbed I slots) (hlength : slots'.length = slots.length) :
    Undisturbed I slots' :=
  h.imp_right hlength.trans

omit [Activity τ ρ] in
/-- The engagement takes its step in a session in which the predicate still holds, and if it holds
after the step, it does so when all have taken theirs. -/
theorem Undisturbed.exists_step (h : Undisturbed I slots)
    {step : Engagement τ → Session → Slot τ ρ × Session}
    (hstep : ∀ e (s : Session), s.AtOnce (step e s).2) (hslot : slots[i]? = some (.waiting e))
    {s : Session} (hwork : I e.work s) :
    ∃ s', s.AtOnce s' ∧ I e.work s' ∧ (sweep step slots s).1[i]? = some (step e s').1 ∧
      ∀ work, I work (step e s').2 → I work (sweep step slots s).2 := by
  rcases h with hothers | halone
  · obtain ⟨s', hbefore, hturn, hafter⟩ := sweep_of_waiting (R := Session.AtOnce) .refl .trans
      hstep hslot s
    exact ⟨s', hbefore, hothers _ _ _ hbefore hwork, hturn, fun work => hothers work _ _ hafter⟩
  · obtain ⟨slot, rfl⟩ := length_eq_one_iff.mp halone
    obtain ⟨rfl, rfl⟩ : i = 0 ∧ slot = .waiting e := by
      simpa using List.getElem?_eq_some_iff.mp hslot
    exact ⟨s, .refl s, hwork, rfl, fun work hafter => hafter⟩

/-- What the turns of its tasks keep holds of some work after all these turns. -/
theorem Undisturbed.exists_taskTurn (h : Undisturbed I slots)
    (honce : ∀ timer (work : τ) (s : Session), s.AtOnce (Activity.taskTurn timer work s).2)
    (hkeeps : ∀ timer work s, I work s →
      I (Activity.taskTurn timer work s).1 (Activity.taskTurn timer work s).2)
    (hslot : slots[i]? = some (.waiting e)) {s : Session} (hwork : I e.work s) :
    ∃ work, (taskTurn slots s).1[i]? = some (.waiting { e with work }) ∧
      I work (taskTurn slots s).2 := by
  refine (taskTurn_invariant (P := fun slots s => Undisturbed I slots ∧
    ∃ work, slots[i]? = some (.waiting { e with work }) ∧ I work s) ?_ ⟨h, e.work, hslot, hwork⟩).2
  rintro timer slots s ⟨h, work, hslot, hwork⟩
  have hstep : ∀ (e : Engagement τ) (s : Session), s.AtOnce (e.taskTurn timer s).2 :=
    fun e s => honce timer e.work s
  obtain ⟨s', -, hbefore, hturn, hafter⟩ := h.exists_step hstep hslot hwork
  exact ⟨h.of_length (length_sweep _ _ _), (Activity.taskTurn timer work s').1, hturn,
    hafter _ (hkeeps timer work s' hbefore)⟩

end Orchestration.Timeline
