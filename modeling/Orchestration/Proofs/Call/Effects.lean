import Orchestration.Call

/-! # What calls do to a session

Whatever a call does in a poll, and whatever it leaves behind when it is dropped, takes no time,
hands out tokens in ascending order and undoes no cancellation. Dropping a call only enters
events. -/

namespace Orchestration

open List

namespace Session

/-! ## Single actions -/

theorem foldl_record_eq (watches : List (Token × Event)) (s : Session) :
    watches.foldl (fun s w => s.record w.2) s =
      { s with journal := (watches.map fun w => ⟨s.now, w.2⟩).reverse ++ s.journal } := by
  induction watches generalizing s with
  | nil => rfl
  | cons w watches ih =>
      rw [foldl_cons, ih]
      simp [record]

/-- A cancellation enters one token and the events that waited for it, and changes nothing else. -/
theorem cancel_eq (s : Session) (c : Context) : ∃ journal watches,
    s.cancel c = { s with
      registry := s.registry.cancel c.token
      journal := journal ++ s.journal
      watches } := by
  unfold cancel
  simp only [foldl_record_eq]
  exact ⟨_, _, rfl⟩

@[simp]
theorem cancel_now (s : Session) (c : Context) : (s.cancel c).now = s.now := by
  obtain ⟨journal, watches, h⟩ := s.cancel_eq c
  rw [h]

@[simp]
theorem cancel_registry (s : Session) (c : Context) :
    (s.cancel c).registry = s.registry.cancel c.token := by
  obtain ⟨journal, watches, h⟩ := s.cancel_eq c
  rw [h]

@[simp]
theorem cancel_calls (s : Session) (c : Context) : (s.cancel c).calls = s.calls := by
  obtain ⟨journal, watches, h⟩ := s.cancel_eq c
  rw [h]

@[simp]
theorem cancel_timers (s : Session) (c : Context) : (s.cancel c).timers = s.timers := by
  obtain ⟨journal, watches, h⟩ := s.cancel_eq c
  rw [h]

@[simp]
theorem cancel_alarms (s : Session) (c : Context) : (s.cancel c).alarms = s.alarms := by
  obtain ⟨journal, watches, h⟩ := s.cancel_eq c
  rw [h]

theorem journal_subset_cancel (s : Session) (c : Context) :
    s.journal ⊆ (s.cancel c).journal := by
  obtain ⟨journal, watches, h⟩ := s.cancel_eq c
  rw [h]
  exact subset_append_right _ _

/-- Cancelling a context cancels those derived from it and no others. -/
theorem isCancelled_cancel (s : Session) (c d : Context) :
    (s.cancel c).isCancelled d = (decide (c.token.id ∈ d.token.lineage) || s.isCancelled d) := by
  rw [isCancelled, cancel_registry, Registry.isCancelled_cancel]
  rfl

end Session

/-- The second session can come after the first: time does not go back, no token is handed out
again, and what is cancelled stays so. -/
structure Session.Later (s s' : Session) : Prop where
  now : s.now ≤ s'.now
  tokens : s.registry.nextToken ≤ s'.registry.nextToken
  cancelled : s.registry.cancelled ⊆ s'.registry.cancelled

namespace Session.Later

variable {s s' s'' : Session}

theorem refl (s : Session) : s.Later s := ⟨Nat.le_refl _, Nat.le_refl _, Subset.refl _⟩

theorem trans (h : s.Later s') (h' : s'.Later s'') : s.Later s'' :=
  ⟨Nat.le_trans h.now h'.now, Nat.le_trans h.tokens h'.tokens,
    Subset.trans h.cancelled h'.cancelled⟩

theorem isCancelled (h : s.Later s') {c : Context} (hc : s.isCancelled c = true) :
    s'.isCancelled c = true := by
  simp only [Session.isCancelled, Registry.isCancelled, any_eq_true, decide_eq_true_eq] at hc ⊢
  obtain ⟨id, hid, hcancelled⟩ := hc
  exact ⟨id, hid, h.cancelled hcancelled⟩

theorem advance (s : Session) {time : Nat} (h : s.now ≤ time) : s.Later (s.advance time) :=
  ⟨h, Nat.le_refl _, Subset.refl _⟩

end Session.Later

/-- The second session can come after the first at the same time. -/
structure Session.AtOnce (s s' : Session) : Prop extends s.Later s' where
  still : s'.now = s.now

namespace Session.AtOnce

variable {s s' s'' : Session}

theorem refl (s : Session) : s.AtOnce s := ⟨.refl s, rfl⟩

theorem trans (h : s.AtOnce s') (h' : s'.AtOnce s'') : s.AtOnce s'' :=
  ⟨h.toLater.trans h'.toLater, h'.still.trans h.still⟩

theorem cancel (s : Session) (c : Context) : s.AtOnce (s.cancel c) := by
  refine ⟨⟨by simp, ?_, ?_⟩, by simp⟩
  · rw [cancel_registry]
    exact Nat.le_refl _
  · rw [cancel_registry]
    exact subset_cons_self _ _

theorem derive (s : Session) (c : Context) : s.AtOnce (s.derive c).2 :=
  ⟨⟨Nat.le_refl _, Nat.le_succ _, Subset.refl _⟩, rfl⟩

/-- Actions take no time. -/
theorem perform (s : Session) (a : Action) : s.AtOnce (s.perform a).2 := by
  cases a with
  | timer | number | record | inspect | detach =>
      exact ⟨⟨Nat.le_refl _, Nat.le_refl _, Subset.refl _⟩, rfl⟩
  | cancel c => exact cancel s c
  | derive c => exact derive s c
  | isolate => exact ⟨⟨Nat.le_refl _, Nat.le_succ _, Subset.refl _⟩, rfl⟩
  | watch c event =>
      simp only [Session.perform, Session.watch]
      split <;> exact ⟨⟨Nat.le_refl _, Nat.le_refl _, Subset.refl _⟩, rfl⟩

end Session.AtOnce

/-- The second session can come after the first without any agent's doing: at the same time, and no
call was counted, no timer set and nothing set off. -/
structure Session.Uncalled (s s' : Session) : Prop extends s.AtOnce s' where
  calls : s'.calls = s.calls
  timers : s'.timers = s.timers
  alarms : s'.alarms = s.alarms

namespace Session.Uncalled

variable {s s' s'' : Session}

theorem refl (s : Session) : s.Uncalled s := ⟨.refl s, rfl, rfl, rfl⟩

theorem trans (h : s.Uncalled s') (h' : s'.Uncalled s'') : s.Uncalled s'' :=
  ⟨h.toAtOnce.trans h'.toAtOnce, h'.calls.trans h.calls, h'.timers.trans h.timers,
    h'.alarms.trans h.alarms⟩

theorem cancel (s : Session) (c : Context) : s.Uncalled (s.cancel c) :=
  ⟨.cancel s c, s.cancel_calls c, s.cancel_timers c, s.cancel_alarms c⟩

theorem derive (s : Session) (c : Context) : s.Uncalled (s.derive c).2 :=
  ⟨.derive s c, rfl, rfl, rfl⟩

end Session.Uncalled

namespace Call

variable {α : Type}

/-! ## Dropping -/

/-- The events that are entered when the call is dropped, the outermost first. -/
def guards : Call α → List Event
  | guarded onDrop body => onDrop :: body.guards
  | within _ _ _ body => body.guards
  | andThen body _ => body.guards
  | finish _ | act .. | await .. => []

theorem drop_eq (call : Call α) (s : Session) :
    call.drop s = { s with journal := call.guards.map (⟨s.now, ·⟩) ++ s.journal } := by
  induction call with
  | guarded onDrop body ih => simp [drop, guards, ih, Session.record]
  | within deadline scope late body ih => simpa [drop, guards] using ih
  | andThen body next ih _ => simpa [drop, guards] using ih
  | finish | act | await => rfl

@[simp]
theorem drop_now (call : Call α) (s : Session) : (call.drop s).now = s.now := by
  rw [drop_eq]

@[simp]
theorem drop_registry (call : Call α) (s : Session) : (call.drop s).registry = s.registry := by
  rw [drop_eq]

@[simp]
theorem drop_calls (call : Call α) (s : Session) : (call.drop s).calls = s.calls := by
  rw [drop_eq]

/-! ## Polling -/

section

variable {R : Session → Session → Prop} (hrefl : ∀ s, R s s)
  (htrans : ∀ {s s' s''}, R s s' → R s' s'' → R s s'') (hact : ∀ s a, R s (s.perform a).2)

include hrefl htrans hact

theorem drop_induction (call : Call α) (s : Session) : R s (call.drop s) := by
  induction call with
  | guarded onDrop body ih => exact htrans ih (hact _ (.record onDrop))
  | within deadline scope late body ih => exact ih
  | andThen body next ih _ => exact ih
  | finish | act | await => exact hrefl s

/-- What holds from before to after each action holds from before to after a poll. -/
theorem poll_induction (call : Call α) (s : Session) : R s (call.poll s).2 := by
  induction call generalizing s with
  | finish ending => exact hrefl s
  | act action next ih => exact htrans (hact s action) (ih _ _)
  | await wake next ih =>
      rw [poll]
      split
      · exact ih s
      · exact hrefl s
  | guarded onDrop body ih =>
      have hbody := ih s
      rw [poll]
      split <;> simp_all
  | within deadline scope late body ih =>
      have hbody := ih s
      rw [poll]
      split
      · rename_i ending s' hpoll
        rwa [hpoll] at hbody
      · rename_i rest s' hpoll
        rw [hpoll] at hbody
        split
        · have hdrop := drop_induction hrefl htrans hact rest s'
          exact htrans hbody (htrans hdrop (hact _ (.cancel scope)))
        · exact hbody
  | andThen body next ih ihnext =>
      have hbody := ih s
      rw [poll]
      split
      · rename_i ending s' hpoll
        rw [hpoll] at hbody
        exact htrans hbody (ihnext ending s')
      · rename_i rest s' hpoll
        rwa [hpoll] at hbody

end

theorem atOnce_poll (call : Call α) (s : Session) : s.AtOnce (call.poll s).2 :=
  poll_induction .refl .trans .perform call s

end Call

end Orchestration
