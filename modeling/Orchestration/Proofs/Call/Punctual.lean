import Orchestration.Proofs.Call.Endings
import Orchestration.Proofs.Call.Timing
import Orchestration.Proofs.Call.Waiting
import Orchestration.Script

/-! # Calls that succeed after a fixed wait

A call is punctual if it ends with a value at one time, however often it is polled until then and
whatever else happens in the sessions, provided that it is polled when its timers are due. So are a
sleep before a punctual call, and what is made from a punctual call without another wait. -/

namespace Orchestration

namespace Call

variable {α : Type}

/-- A poll of the call in the session keeps to the time: before, the call waits for some timer that
is due by then, and what is left is one of these calls; then, it ends with a value. -/
structure Keeps (time : Nat) (C : Call α → Prop) (call : Call α) (s : Session) : Prop where
  waits : s.now < time → ∃ rest s', call.poll s = (.waiting rest, s') ∧ C rest ∧
    ∃ t ∈ rest.nextTimer, t.due ≤ time
  ends : s.now = time → ∃ v s', call.poll s = (.ended (.value v), s')

/-- Polled in any sessions, but not later than its timers are due, the call ends with a value at
the time and not before. The calls of this sort are the largest class that such polls do not lead
out of. -/
def SucceedsAt (time : Nat) (call : Call α) : Prop :=
  ∃ C : Call α → Prop, C call ∧
    ∀ call s, C call → (∀ t ∈ call.nextTimer, s.now ≤ t.due) → call.Keeps time C s

/-- First polled at any time, the call ends with a value so many milliseconds later. -/
def SucceedsAfter (millis : Nat) (call : Call α) : Prop :=
  ∀ s, call.Keeps (s.now + millis) (SucceedsAt (s.now + millis)) s

variable {time millis more : Nat} {C C' : Call α → Prop} {call body next : Call α} {s : Session}

theorem Keeps.mono (h : call.Keeps time C s) (hC : ∀ call, C call → C' call) :
    call.Keeps time C' s := by
  refine ⟨fun hnow => ?_, h.ends⟩
  obtain ⟨rest, s', hpoll, hrest, htimer⟩ := h.waits hnow
  exact ⟨rest, s', hpoll, hC rest hrest, htimer⟩

theorem Keeps.of_poll_eq {call' : Call α} {s' : Session} (h : call'.Keeps time C s')
    (heq : call.poll s = call'.poll s') (hnow : s'.now = s.now) : call.Keeps time C s := by
  obtain ⟨hwaits, hends⟩ := h
  rw [← heq, hnow] at hwaits hends
  exact ⟨hwaits, hends⟩

theorem SucceedsAt.keeps (h : call.SucceedsAt time)
    (hprompt : ∀ t ∈ call.nextTimer, s.now ≤ t.due) : call.Keeps time (SucceedsAt time) s := by
  obtain ⟨C, hcall, hclosed⟩ := h
  exact (hclosed call s hcall hprompt).mono fun rest hrest => ⟨C, hrest, hclosed⟩

/-- Polled at the present time, the call keeps to one that is so many milliseconds away. -/
def DueIn (millis now : Nat) (call : Call α) : Prop :=
  ∀ s, s.now = now → call.Keeps (now + millis) (SucceedsAt (now + millis)) s

theorem SucceedsAfter.dueIn (h : call.SucceedsAfter millis) (now : Nat) :
    call.DueIn millis now := by
  rintro s rfl
  exact h s

theorem SucceedsAt.dueIn {now : Nat} (h : call.SucceedsAt (now + millis))
    (hprompt : ∀ t ∈ call.nextTimer, now ≤ t.due) : call.DueIn millis now := by
  rintro s rfl
  exact h.keeps hprompt

/-- The call waits for a timer that is due later, but not later than the time, so many milliseconds
away, at which it ends with a value. -/
structure Asleep (millis now : Nat) (call : Call α) : Prop where
  succeeds : call.SucceedsAt (now + millis)
  timer : ∃ t ∈ call.nextTimer, now < t.due ∧ t.due ≤ now + millis

theorem Asleep.dueIn {now : Nat} (h : call.Asleep millis now) : call.DueIn millis now := by
  obtain ⟨t, ht, hlater, -⟩ := h.timer
  refine h.succeeds.dueIn fun u hu => ?_
  obtain rfl := Option.mem_unique hu ht
  exact Nat.le_of_lt hlater

/-- A call that is found waiting is asleep. -/
theorem DueIn.asleep {now : Nat} (h : call.DueIn millis now) {rest : Call α} {s' : Session}
    (hnow : s.now = now) (hpoll : call.poll s = (.waiting rest, s')) : rest.Asleep millis now := by
  have hkeeps := h s hnow
  rcases Nat.eq_zero_or_pos millis with hzero | hpos
  · obtain ⟨v, s₁, hends⟩ := hkeeps.ends (by omega)
    rw [hpoll] at hends
    cases hends
  · obtain ⟨rest', s₁, hwaits, hrest, t, ht, hdue⟩ := hkeeps.waits (by omega)
    rw [hpoll] at hwaits
    obtain rfl : rest = rest' := Progress.waiting.inj (Prod.mk.inj hwaits).1
    have hlater := now_lt_of_nextTimer hpoll ht
    rw [now_of_poll hpoll, hnow] at hlater
    exact ⟨hrest, t, ht, hlater, hdue⟩

/-- A call that ends is due, and it succeeds. -/
theorem DueIn.of_ended {now : Nat} (h : call.DueIn millis now) {ending : Ending α} {s' : Session}
    (hnow : s.now = now) (hpoll : call.poll s = (.ended ending, s')) :
    millis = 0 ∧ ∃ v, ending = .value v := by
  have hkeeps := h s hnow
  rcases Nat.eq_zero_or_pos millis with hzero | hpos
  · obtain ⟨v, s₁, hends⟩ := hkeeps.ends (by omega)
    rw [hpoll] at hends
    obtain ⟨hending, -⟩ := Prod.mk.inj hends
    exact ⟨hzero, v, Progress.ended.inj hending⟩
  · obtain ⟨rest, s₁, hwaits, -⟩ := hkeeps.waits (by omega)
    rw [hpoll] at hwaits
    cases hwaits

/-! ## Ways of composing -/

theorem SucceedsAfter.finish (v : α) : (Call.finish (.value v)).SucceedsAfter 0 :=
  fun s => ⟨fun hnow => absurd hnow (Nat.lt_irrefl _), fun _ => ⟨v, s, rfl⟩⟩

theorem SucceedsAfter.act {action : Action} {next : action.Answer → Call α}
    (h : ∀ answer, (next answer).SucceedsAfter millis) :
    (Call.act action next).SucceedsAfter millis := by
  intro s
  have hnow : (s.perform action).2.now = s.now := (Session.AtOnce.perform s action).still
  have hnext := h (s.perform action).1 (s.perform action).2
  rw [hnow] at hnext
  exact hnext.of_poll_eq rfl hnow

theorem keeps_timer {t : Timer} (h : next.SucceedsAfter more) (hnow : s.now ≤ t.due)
    (hself : C (.await (.timer t) next)) (hrest : ∀ call, SucceedsAt (t.due + more) call → C call) :
    (Call.await (.timer t) next).Keeps (t.due + more) C s := by
  rcases Nat.lt_or_eq_of_le hnow with hearly | hdue
  · have hpoll : (Call.await (.timer t) next).poll s = (.waiting (.await (.timer t) next), s) :=
      if_neg (by simpa [Session.holds] using hearly)
    exact ⟨fun _ => ⟨_, s, hpoll, hself, t, rfl, Nat.le_add_right _ _⟩, fun hlate => by omega⟩
  · have hpoll : (Call.await (.timer t) next).poll s = next.poll s :=
      if_pos (by simp [Session.holds, hdue])
    have hnext := h s
    rw [hdue] at hnext
    exact (hnext.mono hrest).of_poll_eq hpoll rfl

/-- One wait comes after the other. -/
theorem SucceedsAfter.sleep (h : next.SucceedsAfter more) (millis : Nat) :
    (Call.sleep millis next).SucceedsAfter (millis + more) := by
  intro s
  let t : Timer := ⟨s.now + millis, s.timers⟩
  have htimer : (Call.await (.timer t) next).SucceedsAt (t.due + more) := by
    refine ⟨fun call => call = .await (.timer t) next ∨ call.SucceedsAt (t.due + more),
      .inl rfl, ?_⟩
    rintro call s' (rfl | hcall) hprompt
    · exact keeps_timer h (hprompt t rfl) (.inl rfl) fun _ => .inr
    · exact (hcall.keeps hprompt).mono fun _ => .inr
  have hpoll : (Call.sleep millis next).poll s =
      (Call.await (.timer t) next).poll (s.setTimer millis).2 := rfl
  rw [← Nat.add_assoc]
  exact (keeps_timer h (Nat.le_add_right _ _) htimer fun _ => id).of_poll_eq hpoll rfl

theorem Keeps.guarded (h : body.Keeps time C s) (onDrop : Event) :
    (Call.guarded onDrop body).Keeps time (fun call => ∃ rest, call = .guarded onDrop rest ∧ C rest)
      s := by
  refine ⟨fun hnow => ?_, fun hnow => ?_⟩
  · obtain ⟨rest, s', hpoll, hrest, htimer⟩ := h.waits hnow
    exact ⟨.guarded onDrop rest, s', by rw [Call.poll, hpoll], ⟨rest, rfl, hrest⟩, htimer⟩
  · obtain ⟨v, s', hpoll⟩ := h.ends hnow
    exact ⟨v, s', by rw [Call.poll, hpoll]⟩

theorem SucceedsAt.guarded (h : body.SucceedsAt time) (onDrop : Event) :
    (Call.guarded onDrop body).SucceedsAt time := by
  refine ⟨fun call => ∃ rest, call = .guarded onDrop rest ∧ rest.SucceedsAt time,
    ⟨body, rfl, h⟩, ?_⟩
  rintro call s ⟨rest, rfl, hrest⟩ hprompt
  exact (hrest.keeps hprompt).guarded onDrop

theorem SucceedsAfter.guarded (h : body.SucceedsAfter millis) (onDrop : Event) :
    (Call.guarded onDrop body).SucceedsAfter millis := by
  intro s
  refine ((h s).guarded onDrop).mono ?_
  rintro call ⟨rest, rfl, hrest⟩
  exact hrest.guarded onDrop

section AndThen

variable {next : Ending α → Call α} (hnext : ∀ v, (next (.value v)).SucceedsAfter 0)

include hnext

theorem Keeps.andThen (h : body.Keeps time C s) :
    (Call.andThen body next).Keeps time (fun call => ∃ rest, call = .andThen rest next ∧ C rest)
      s := by
  refine ⟨fun hnow => ?_, fun hnow => ?_⟩
  · obtain ⟨rest, s', hpoll, hrest, htimer⟩ := h.waits hnow
    exact ⟨.andThen rest next, s', poll_andThen_of_waiting hpoll next, ⟨rest, rfl, hrest⟩, htimer⟩
  · obtain ⟨v, s', hpoll⟩ := h.ends hnow
    rw [poll_andThen_of_ended hpoll]
    exact (hnext v s').ends (Nat.add_zero _).symm

theorem SucceedsAt.andThen (h : body.SucceedsAt time) :
    (Call.andThen body next).SucceedsAt time := by
  refine ⟨fun call => ∃ rest, call = .andThen rest next ∧ rest.SucceedsAt time,
    ⟨body, rfl, h⟩, ?_⟩
  rintro call s ⟨rest, rfl, hrest⟩ hprompt
  exact (hrest.keeps hprompt).andThen hnext

theorem SucceedsAfter.andThen (h : body.SucceedsAfter millis) :
    (Call.andThen body next).SucceedsAfter millis := by
  intro s
  refine ((h s).andThen hnext).mono ?_
  rintro call ⟨rest, rfl, hrest⟩
  exact hrest.andThen hnext

end AndThen

end Call

/-! ## Nodes and agents -/

/-- Given any value that it takes, the node succeeds after so many milliseconds. -/
def Node.SucceedsAfter (n : Node) (millis : Nat) : Prop :=
  ∀ v c, v.kind = n.input → (n.call v c).SucceedsAfter millis

/-- Only copies of brittle data fault. -/
theorem Datum.copy_eq_ok {κ : Kind} (hκ : κ ≠ .brittle) (d : Datum κ) (earlier : Nat) :
    d.copy earlier = .ok d := by
  unfold copy
  split
  · rename_i b hvalue
    exact absurd (d.kind_eq.symm.trans (congrArg Value.kind hvalue)) hκ
  · rfl

/-- A node whose input can be copied succeeds if its agent does. -/
theorem Node.SucceedsAfter.of_agent {n : Node} (hcopy : n.input ≠ .brittle) {millis : Nat}
    (h : ∀ d c, (n.agent.start d c).SucceedsAfter millis) : n.SucceedsAfter millis := by
  intro v c hkind
  have hcall : n.call v c = (n.agent.execute ⟨v, hkind⟩ c).andThen n.ascribe := by
    simp [call, Value.as?, hkind, withCopy, Datum.copy_eq_ok hcopy]
  have hexecute : (n.agent.execute ⟨v, hkind⟩ c).SucceedsAfter millis :=
    (h _ c).andThen fun v => .finish v
  rw [hcall]
  exact hexecute.andThen fun v => .finish v

/-! ## Scripted agents -/

namespace Scene

theorem succeedsAfter_doIf {α : Type} {millis : Nat} {next : Call α}
    (h : next.SucceedsAfter millis) (wanted : Option Action) :
    (doIf wanted next).SucceedsAfter millis := by
  cases wanted with
  | none => exact h
  | some action => exact .act fun _ => h

/-- A step that waits for nothing but its delay, and then yields a value. -/
theorem succeedsAfter_play {ι ω : Kind} (scene : Scene ι) (c : Context) {step : Step}
    (hstart : step.startFault = none) (hwait : step.waitCancel = false) {v : Datum ω}
    (hvalue : step.conclusion.ending ω scene.name c.node scene.call scene.input = .value v) :
    (scene.play ω c step).SucceedsAfter ((step.delay.map (·.waitMillis)).getD 0) := by
  have hconcluded : (scene.conclude ω c.node step.conclusion).SucceedsAfter 0 := by
    unfold conclude
    rw [hvalue]
    exact .act fun _ => .finish v
  have hcancelling := succeedsAfter_doIf hconcluded (if step.cancel then some (.cancel c) else none)
  simp only [play, hstart, hwait, Bool.false_eq_true, if_false]
  refine succeedsAfter_doIf (succeedsAfter_doIf (.guarded ?_ _) _) _
  cases step.delay with
  | none => exact hcancelling
  | some d => exact hcancelling.sleep d.waitMillis

end Scene

/-- An agent with one step, which it plays in each call. -/
theorem Agent.succeedsAfter_scripted {ι ω : Kind} (serial : Nat) (name who : String) {step : Step}
    (hstart : step.startFault = none) (hwait : step.waitCancel = false)
    (hvalue : ∀ (node : Option String) (call : Nat) (d : Datum ι),
      ∃ v, step.conclusion.ending ω name node call d = .value v)
    (d : Datum ι) (c : Context) :
    ((scripted serial name who .shared step [] : Agent ι ω).start d c).SucceedsAfter
      ((step.delay.map (·.waitMillis)).getD 0) := by
  refine .act fun call => ?_
  obtain ⟨v, hv⟩ := hvalue c.node call d
  have honly : [step][call]?.getD (List.getLastD [] step) = step := by
    cases call <;> rfl
  have hplay := Scene.succeedsAfter_play ⟨who, name, call, d⟩ c hstart hwait hv
  dsimp only
  rw [honly]
  exact .act fun _ => hplay

end Orchestration
