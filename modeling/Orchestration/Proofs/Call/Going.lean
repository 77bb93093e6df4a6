import Orchestration.Proofs.Call.Polling

/-! # How far a call has come

A call that was polled up to some session has come to an ending in it, or to none. An execution of
an agent is told as an episode, from the session in which it starts to the one that it leaves,
whether it has ended there, still waits, or waits in vain because it is dropped. -/

namespace Orchestration

open List

namespace Call

variable {α : Type} {call call' body : Call α} {ending : Ending α} {outcome : Option (Ending α)}
  {s s' s₁ : Session} {gaps : List Gap}

/-- Polled in the first session, and after each gap again, the call has come to this ending in the
last session, or to none. -/
def Goes (call : Call α) (s : Session) (gaps : List Gap) : Option (Ending α) → Session → Prop
  | some ending, s' => call.Polled s gaps (.ended ending) s'
  | none, s' => ∃ rest, call.Polled s gaps (.waiting rest) s'

theorem goes_iff_of_poll_eq (heq : call.poll s = call'.poll s₁) :
    call.Goes s gaps outcome s' ↔ call'.Goes s₁ gaps outcome s' := by
  cases outcome with
  | none => exact exists_congr fun _ => polled_iff_of_poll_eq heq
  | some ending => exact polled_iff_of_poll_eq heq

theorem goes_finish_iff :
    (finish ending).Goes s gaps outcome s' ↔ gaps = [] ∧ outcome = some ending ∧ s' = s := by
  cases outcome <;> simp [Goes, polled_finish_iff]

theorem goes_sleep_iff {millis : Nat} {next : Call α} :
    (sleep millis next).Goes s gaps outcome s' ↔
      (outcome = none ∧ s.Dozes millis gaps s') ∨
        ∃ pause rest s₁, gaps = pause ++ rest ∧ s.Sleeps millis pause s₁ ∧
          next.Goes s₁ rest outcome s' := by
  cases outcome with
  | some ending => simp [Goes, polled_sleep_iff]
  | none =>
      simp only [Goes, polled_sleep_iff_or, true_and]
      constructor
      · rintro ⟨_, ⟨-, hdozes⟩ | ⟨pause, rest, s₁, hgaps, hsleeps, hnext⟩⟩
        · exact .inl hdozes
        · exact .inr ⟨pause, rest, s₁, hgaps, hsleeps, _, hnext⟩
      · rintro (hdozes | ⟨pause, rest, s₁, hgaps, hsleeps, _, hnext⟩)
        · exact ⟨_, .inl ⟨rfl, hdozes⟩⟩
        · exact ⟨_, .inr ⟨pause, rest, s₁, hgaps, hsleeps, hnext⟩⟩

theorem goes_andThen_iff {next : Ending α → Call α} :
    (andThen body next).Goes s gaps outcome s' ↔
      (outcome = none ∧ body.Goes s gaps none s') ∨
        ∃ first gaps₁ gaps₂ s₁, gaps = gaps₁ ++ gaps₂ ∧ body.Goes s gaps₁ (some first) s₁ ∧
          (next first).Goes s₁ gaps₂ outcome s' := by
  cases outcome with
  | some ending => simp [Goes, polled_andThen_iff]
  | none =>
      simp only [Goes, polled_andThen_iff_or, true_and]
      constructor
      · rintro ⟨_, ⟨rest, -, hbody⟩ | ⟨first, gaps₁, gaps₂, s₁, hgaps, hfirst, hnext⟩⟩
        · exact .inl ⟨rest, hbody⟩
        · exact .inr ⟨first, gaps₁, gaps₂, s₁, hgaps, hfirst, _, hnext⟩
      · rintro (⟨rest, hbody⟩ | ⟨first, gaps₁, gaps₂, s₁, hgaps, hfirst, _, hnext⟩)
        · exact ⟨_, .inl ⟨rest, rfl, hbody⟩⟩
        · exact ⟨_, .inr ⟨first, gaps₁, gaps₂, s₁, hgaps, hfirst, hnext⟩⟩

/-- Work whose ending is replaced by another one goes as the work does. -/
theorem goes_map_iff {f : Ending α → Ending α} :
    (body.andThen fun ending => .finish (f ending)).Goes s gaps outcome s' ↔
      ∃ outcome', outcome = Option.map f outcome' ∧ body.Goes s gaps outcome' s' := by
  simp only [goes_andThen_iff, goes_finish_iff]
  constructor
  · rintro (⟨rfl, h⟩ | ⟨first, gaps₁, gaps₂, s₁, rfl, h, rfl, rfl, rfl⟩)
    · exact ⟨none, rfl, h⟩
    · rw [append_nil]
      exact ⟨some first, rfl, h⟩
  · rintro ⟨first, rfl, h⟩
    cases first with
    | none => exact .inl ⟨rfl, h⟩
    | some first => exact .inr ⟨first, gaps, [], s', (append_nil _).symm, h, rfl, rfl, rfl⟩

end Call

/-! ## Executions -/

/-- An execution as it went: the context that it was given, the session in which it started, the
gaps between its polls, how it ended if it did, and the session after the last poll. -/
structure Episode (ω : Kind) where
  context : Context
  start : Session
  gaps : List Gap
  outcome : Option (Ending (Datum ω))
  finish : Session

/-- The execution ended with a failure that can be recovered from. -/
def Episode.Fails {ω : Kind} (e : Episode ω) : Prop :=
  ∃ f : Failure, e.outcome = some (.failure f) ∧ f.recoverable = true

/-- How many calls of an agent were counted in the polls of the execution. -/
def Episode.madeIn {ω : Kind} (e : Episode ω) (agent : Nat) : Int :=
  Call.madeIn e.start e.gaps e.finish agent

namespace Agent

variable {ι ω : Kind} {a : Agent ι ω} {input : Datum ι} {c : Context} {s s' : Session}
  {gaps : List Gap} {outcome : Option (Ending (Datum ω))} {e : Episode ω}

/-- The episode is an execution of the agent on this input. -/
def Executes (a : Agent ι ω) (input : Datum ι) (e : Episode ω) : Prop :=
  (a.execute input e.context).Goes e.start e.gaps e.outcome e.finish

theorem Executes.ne_fault (h : a.Executes input e) (f : Fault) : e.outcome ≠ some (.fault f) := by
  intro hfault
  unfold Executes at h
  rw [hfault] at h
  exact ne_fault_of_polled h f rfl

theorem Counted.madeIn_executes {serial : Nat} (ha : a.Counted serial) (h : a.Executes input e)
    (agent : Nat) : e.madeIn agent = if agent = serial then 1 else 0 := by
  unfold Executes at h
  cases houtcome : e.outcome with
  | none =>
      rw [houtcome] at h
      obtain ⟨rest, h⟩ := h
      exact ha.madeIn_eq h agent
  | some ending =>
      rw [houtcome] at h
      exact ha.madeIn_eq h agent

/-- No execution of the agent counts a call of another one. -/
def Omits (other : Nat) (a : Agent ι ω) : Prop :=
  ∀ input e, a.Executes input e → e.madeIn other = 0

theorem Counted.omits {serial other : Nat} (ha : a.Counted serial) (hne : other ≠ serial) :
    a.Omits other :=
  fun _ _ h => (ha.madeIn_executes h other).trans (if_neg hne)

/-- An execution goes as the agent's work does, with a failure in the place of a fault. -/
theorem goes_execute_iff : (a.execute input c).Goes s gaps outcome s' ↔
    ∃ outcome', outcome = Option.map (·.captured a.name) outcome' ∧
      (a.start input c).Goes s gaps outcome' s' := by
  unfold execute
  rw [show captureFault a.name = fun ending => .finish (ending.captured a.name) from
    funext (Ending.captureFault_eq a.name)]
  exact Call.goes_map_iff

end Agent

end Orchestration
