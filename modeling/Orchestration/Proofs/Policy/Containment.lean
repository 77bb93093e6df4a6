import Orchestration.Proofs.Call.Endings
import Orchestration.Proofs.Call.Likeness
import Orchestration.Proofs.Policy.Nests
import Orchestration.Proofs.Policy.Rows

/-! # Where faults stop

A fault in an agent's own code stops at that agent and becomes a recoverable failure under its name.
The layers around it cannot tell this from a failure that the code itself has come to. A fault while
a layer copies its input stops at that layer, which then neither tries again nor turns to its
stand-in. -/

namespace Orchestration

open Call

variable {ι ω : Kind} {α : Type}

/-- The failure that a fault is reported as. -/
def Failure.ofFault (name : String) (f : Fault) : Failure :=
  .execution "" name ("panicked: " ++ f.message)

theorem Failure.recoverable_ofFault (name : String) (f : Fault) :
    (Failure.ofFault name f).recoverable = true := rfl

/-- Behind a fault boundary nothing ends with a fault. -/
theorem not_mayEnd_fault (body : Call α) (name : String) (f : Fault) :
    ¬ (body.andThen (captureFault name)).MayEnd (.fault f) := by
  intro h
  obtain ⟨ending, -, hend⟩ := mayEnd_andThen h
  cases ending <;> cases mayEnd_finish hend

/-- Behind a fault boundary a fault ends the call at once. -/
theorem poll_captured {rest : Call α} {s s' : Session} {f : Fault}
    (hpoll : rest.poll s = (.ended (.fault f), s')) (name : String) :
    (rest.andThen (captureFault name)).poll s = (.ended (.failure (.ofFault name f)), s') :=
  poll_andThen_of_ended hpoll _

/-! ## Copying the input -/

namespace Nest

/-- The outermost policy copies the input. -/
def Copies : Nest ι ω → Prop
  | base _ => False
  | renamed inner _ => inner.Copies
  | retrying .. => True
  | timingOut .. => False
  | orElse .. => True

theorem Copies.start_eq {t : Nest ι ω} (ht : t.Copies) {input : Datum ι} {f : Fault}
    (h : input.copy 0 = .error f) (c : Context) : t.agent.start input c = .finish (.fault f) := by
  induction t with
  | base a => exact ht.elim
  | renamed inner name ih => exact ih ht
  | retrying inner p => exact inner.agent.attempts_of_error p.backoff h c p.furtherAttempts
  | timingOut inner limit => exact ht.elim
  | orElse primary fallback => exact withCopy_of_error h _

end Nest

/-! ## Agents that do not fault -/

/-- The agent whose code comes to a failure under some name where it would fault. -/
def Agent.tamed (a : Agent ι ω) (name : String) : Agent ι ω :=
  { a with start input c := (a.start input c).andThen (captureFault name) }

theorem Agent.not_mayEnd_fault_tamed (a : Agent ι ω) (name : String) (input : Datum ι) (c : Context)
    (f : Fault) : ¬ ((a.tamed name).start input c).MayEnd (.fault f) :=
  not_mayEnd_fault _ name f

/-- A second boundary of the same name changes nothing. -/
theorem alike_captured (call : Call α) (name : String) :
    Alike (call.andThen (captureFault name))
      ((call.andThen (captureFault name)).andThen (captureFault name)) := by
  refine .of_polls (R := fun c c' => ∃ body : Call α, c = body.andThen (captureFault name) ∧
    c' = (body.andThen (captureFault name)).andThen (captureFault name)) ?_ ⟨call, rfl, rfl⟩
  rintro _ _ ⟨body, rfl, rfl⟩ s
  cases hpoll : body.poll s with
  | mk state s' =>
      cases state with
      | ended ending =>
          rw [poll_andThen_of_ended hpoll, Call.poll, poll_andThen_of_ended hpoll]
          cases ending <;> exact .ended _ s'
      | waiting rest =>
          rw [poll_andThen_of_waiting hpoll, Call.poll, poll_andThen_of_waiting hpoll]
          exact .waiting s' rfl rfl (.inl ⟨rest, rfl, rfl⟩)

namespace Nest

/-- The nest with agents at its base that do not fault but fail, under the name by which they are
executed: the outermost one that they were given before any policy, if there is one. -/
def tamedUnder : Option String → Nest ι ω → Nest ι ω
  | given, base a => base (a.tamed (given.getD a.name))
  | given, renamed inner name => renamed (inner.tamedUnder (some (given.getD name))) name
  | _, retrying inner p => retrying (inner.tamedUnder none) p
  | _, timingOut inner limit => timingOut (inner.tamedUnder none) limit
  | _, orElse primary fallback => orElse (primary.tamedUnder none) (fallback.tamedUnder none)

def tamed (t : Nest ι ω) : Nest ι ω := t.tamedUnder none

theorem name_tamedUnder (given : Option String) (t : Nest ι ω) :
    (t.tamedUnder given).agent.name = t.agent.name := by
  induction t generalizing given with
  | base a => rfl
  | renamed inner name => rfl
  | retrying inner p ih => exact ih none
  | timingOut inner limit ih => exact ih none
  | orElse primary fallback ih => exact ih none

theorem exists_of_mem_bases_tamedUnder {t : Nest ι ω} {given : Option String} {a : Agent ι ω}
    (h : a ∈ (t.tamedUnder given).bases) : ∃ b ∈ t.bases, ∃ name, a = b.tamed name := by
  induction t generalizing given with
  | base b => exact ⟨b, List.mem_singleton_self b, _, List.mem_singleton.mp h⟩
  | renamed inner name ih => exact ih h
  | retrying inner p ih => exact ih h
  | timingOut inner limit ih => exact ih h
  | orElse primary fallback ih ihfallback =>
      rcases List.mem_append.mp h with h | h
      · obtain ⟨b, hb, hname⟩ := ih h
        exact ⟨b, List.mem_append_left _ hb, hname⟩
      · obtain ⟨b, hb, hname⟩ := ihfallback h
        exact ⟨b, List.mem_append_right _ hb, hname⟩

end Nest

/-! ## Layers around agents that nothing tells apart -/

theorem alike_withCopy {κ : Kind} {next next' : Datum κ → Call α}
    (h : ∀ copy, Alike (next copy) (next' copy)) (d : Datum κ) (earlier : Nat) :
    Alike (withCopy d earlier next) (withCopy d earlier next') := by
  unfold withCopy
  split
  · exact h _
  · exact .refl _

section

variable {a a' : Agent ι ω} (h : ∀ input c, Alike (a.execute input c) (a'.execute input c))

include h

theorem alike_attempts (backoff : Backoff) (input : Datum ι) (c : Context) (left failures : Nat) :
    Alike (a.attempts backoff input c left failures) (a'.attempts backoff input c left failures) := by
  induction left generalizing failures with
  | zero =>
      rw [Agent.attempts, Agent.attempts]
      exact alike_withCopy (fun copy => (h copy c).andThen fun _ => .refl _) input failures
  | succ left ih =>
      rw [Agent.attempts, Agent.attempts]
      refine alike_withCopy (fun copy => (h copy c).andThen fun ending => ?_) input failures
      cases ending with
      | failure f =>
          by_cases hf : f.recoverable = true
          · simp only [hf, if_true]
            refine .act fun cancelled => ?_
            cases cancelled with
            | true => exact .refl _
            | false => exact (ih (failures + 1)).sleep _
          · simp only [hf]
            exact .refl _
      | value v => exact .refl _
      | fault f => exact .refl _

theorem alike_timingOut (limit : Duration) (input : Datum ι) (c : Context) :
    Alike ((a.timingOut limit).start input c) ((a'.timingOut limit).start input c) :=
  .act fun attempt => .act fun _ => (h input attempt).within _ _ _

theorem alike_orElse {b b' : Agent ι ω}
    (hfallback : ∀ input c, Alike (b.execute input c) (b'.execute input c)) (input : Datum ι)
    (c : Context) : Alike ((a.orElse b).start input c) ((a'.orElse b').start input c) := by
  refine alike_withCopy (fun copy => (h copy c).andThen fun ending => ?_) input 0
  cases ending with
  | failure f =>
      by_cases hf : f.recoverable = true
      · simp only [hf, if_true]
        exact (hfallback input c).andThen fun _ => .refl _
      · simp only [hf]
        exact .refl _
  | value v => exact .refl _
  | fault f => exact .refl _

end

namespace Nest

/-- Under whatever name it is executed, a nest does the same as one without faults at its base. -/
theorem alike_tamedUnder (t : Nest ι ω) (given : Option String) (input : Datum ι) (c : Context) :
    Alike ((t.agent.start input c).andThen (captureFault (given.getD t.agent.name)))
      (((t.tamedUnder given).agent.start input c).andThen
        (captureFault (given.getD t.agent.name))) := by
  have hinner : ∀ {t : Nest ι ω}, (∀ given input c,
      Alike ((t.agent.start input c).andThen (captureFault (given.getD t.agent.name)))
        (((t.tamedUnder given).agent.start input c).andThen
          (captureFault (given.getD t.agent.name)))) →
      ∀ input c, Alike (t.agent.execute input c) ((t.tamedUnder none).agent.execute input c) := by
    intro t ih input c
    unfold Agent.execute
    rw [name_tamedUnder]
    exact ih none input c
  induction t generalizing given input c with
  | base a => exact alike_captured (a.start input c) (given.getD a.name)
  | renamed inner name ih => exact ih (some (given.getD name)) input c
  | retrying inner p ih =>
      exact (alike_attempts (hinner ih) _ input c _ 0).andThen fun _ => .refl _
  | timingOut inner limit ih =>
      exact (alike_timingOut (hinner ih) limit input c).andThen fun _ => .refl _
  | orElse primary fallback ih ihfallback =>
      exact (alike_orElse (hinner ih) (hinner ihfallback) input c).andThen fun _ => .refl _

theorem alike_tamed (t : Nest ι ω) (input : Datum ι) (c : Context) :
    Alike (t.agent.execute input c) (t.tamed.agent.execute input c) := by
  unfold Agent.execute tamed
  rw [name_tamedUnder]
  exact t.alike_tamedUnder none input c

/-- What a nest makes of faults. -/
structure ContainsFaults (t : Nest ι ω) : Prop where
  /-- No execution ends with a fault. -/
  contains : ∀ input c f, ¬ (t.agent.execute input c).MayEnd (.fault f)
  /-- When the agent's own code faults, be it at once or in a later poll, the execution ends in that
  poll with a recoverable failure under the agent's name, and what was done until then stays
  done. -/
  surfaces : ∀ input c rest s s' f, (t.agent.start input c).Remains rest →
    rest.poll s = (.ended (.fault f), s') →
    (∃ call, (t.agent.execute input c).Remains call ∧ call.poll s =
      (.ended (.failure (.execution "" t.agent.name ("panicked: " ++ f.message))), s')) ∧
    (Failure.execution "" t.agent.name ("panicked: " ++ f.message)).recoverable = true
  /-- Nothing tells the execution from one in which the agents at the base fail where they would
  fault. -/
  recovers : ∀ input c, Alike (t.agent.execute input c) (t.tamed.agent.execute input c)
  /-- Those agents do not fault. -/
  tame : ∀ a ∈ t.tamed.bases, ∀ input c f, ¬ (a.start input c).MayEnd (.fault f)
  /-- If the outermost policy cannot copy the input, the execution ends at once, in the same way, and
  nothing is called. -/
  copies : t.Copies → ∀ input f, input.copy 0 = .error f → ∀ c s,
    (t.agent.execute input c).poll s =
      (.ended (.failure (.execution "" t.agent.name ("panicked: " ++ f.message))), s)
  /-- With further attempts, the work faults just when the input cannot be copied for the next one:
  all before it have failed recoverably while the context was not cancelled, and the waits after them
  are over. -/
  attempts : ∀ p input c s gaps f s',
    ((t.retrying p).agent.start input c).Polled s gaps (.ended (.fault f)) s' ↔
      ∃ tries,
        t.agent.Tries p.backoff input c p.furtherAttempts 0 s gaps (some (.fault f)) s' tries ∧
        input.copy tries.length = .error f ∧ tries.length < max 1 p.maxAttempts.toNat ∧
        ∀ x ∈ tries, t.agent.Executes input x ∧ x.Fails ∧ x.finish.isCancelled c = false
  /-- Then the execution ends in that poll, in the same way, and nothing else is called. -/
  spoils : ∀ p input c s gaps f s',
    ((t.retrying p).agent.start input c).Polled s gaps (.ended (.fault f)) s' →
      ((t.retrying p).agent.execute input c).Polled s gaps
        (.ended (.failure (.execution "" t.agent.name ("panicked: " ++ f.message)))) s'

theorem containsFaults (t : Nest ι ω) : t.ContainsFaults where
  contains input c f := not_mayEnd_fault _ t.agent.name f
  surfaces input c rest s s' f hrest hpoll :=
    ⟨⟨_, hrest.andThen (captureFault t.agent.name), poll_captured hpoll t.agent.name⟩,
      Failure.recoverable_ofFault t.agent.name f⟩
  recovers := t.alike_tamed
  tame a ha input c f := by
    obtain ⟨b, -, name, rfl⟩ := exists_of_mem_bases_tamedUnder ha
    exact b.not_mayEnd_fault_tamed name input c f
  copies ht input f hcopy c s := by
    rw [Agent.execute, ht.start_eq hcopy]
    rfl
  attempts p input c s gaps f s' := by
    change ((t.retrying p).agent.start input c).Goes s gaps (some (.fault f)) s' ↔ _
    refine Agent.goes_attempts_iff.trans
      (exists_congr fun tries => (and_iff_left_of_imp fun h => ?_).symm)
    obtain ⟨hcopy, hlength, hfails⟩ := h.spoilt
    have hmost := p.succ_furtherAttempts
    exact ⟨by rwa [Nat.zero_add] at hcopy, by omega,
      fun x hx => ⟨h.executes x hx, hfails x hx⟩⟩
  spoils p input c s gaps f s' h := by
    change ((t.retrying p).agent.execute input c).Goes s gaps (some _) s'
    exact Agent.goes_execute_iff.mpr ⟨some (.fault f), rfl, h⟩

end Nest

end Orchestration
