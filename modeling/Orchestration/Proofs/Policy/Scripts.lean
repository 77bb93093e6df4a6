import Orchestration.Proofs.Policy.Fates
import Orchestration.Script

/-! # What scripted agents come to

A step of a script takes as long as its delay and comes to its conclusion, or it never ends since it
waits for a cancellation that does not come. -/

namespace Orchestration

open List

variable {ι ω : Kind} {α : Type}

/-- What is left of an ending behind the fault boundary of a named agent. -/
def Ending.toResult (name : String) : Ending α → Except Failure α
  | .value v => .ok v
  | .failure f => .error f
  | .fault f => .error (.ofAgent name ("panicked: " ++ f.message))

theorem captureFault_toResult (name : String) (ending : Ending α) :
    captureFault name ending = .finish (.ofResult (ending.toResult name)) := by
  cases ending <;> rfl

/-- What a step comes to that concludes in this way. -/
def Step.fate (step : Step) (name : String) (concluded : Ending α) : Fate α :=
  match step.startFault with
  | some fault => .ends 0 ((Ending.fault fault : Ending α).toResult name)
  | none =>
    if step.waitCancel then .never
    else .ends (step.delay.elim 0 Duration.waitMillis) (concluded.toResult name)

/-! ## Waiting in vain -/

/-- As long as the context is not cancelled, the wait for that goes on. -/
theorem Call.until_await_cancellation {W : Session → Session → Prop} {I K : Session → Prop}
    {Q : Ending α → Session → Prop} {c : Context} {next : Call α} {s : Session} (time : Nat)
    (hW : ∀ s s', W s s' → K s → K s') (hcalm : ∀ s', K s' → s'.isCancelled c = false)
    (hI : ∀ s', K s' → I s') (hs : K s) :
    Until W (some time) I Q (.await (.cancellation c) next) s := by
  have hpoll : ∀ s', K s' → (Call.await (.cancellation c) next).poll s' =
      (.waiting (.await (.cancellation c) next), s') :=
    fun s' hs' => if_neg (by simp [Session.holds, hcalm s' hs'])
  induction hleft : time - s.now using Nat.strongRecOn generalizing s with
  | _ left ih =>
      refine .waits (hpoll s hs) (hI s hs) fun s' hchange hlater hle _ => ?_
      have htime := hle time rfl
      exact ih (time - s'.now) (by omega) (hW s s' hchange hs) rfl

namespace Scene

/-- What a step waits for and does after its delay. -/
def afterDelay (scene : Scene ι) (ω : Kind) (c : Context) (step : Step) : Call (Datum ω) :=
  let cancelling := doIf (if step.cancel then some (.cancel c) else none)
    (scene.conclude ω c.node step.conclusion)
  if step.waitCancel then .await (.cancellation c) cancelling else cancelling

variable {W : Session → Session → Prop} {bound : Option Nat} {I K : Session → Prop}
  {Q : Ending (Datum ω) → Session → Prop} {s : Session}

theorem until_doIf {action : Action} {wanted : Bool} {next : Call α}
    {Q : Ending α → Session → Prop}
    (hnot : wanted = false → next.Until W bound I Q s)
    (hdo : wanted = true → next.Until W bound I Q (s.perform action).2) :
    (doIf (if wanted then some action else none) next).Until W bound I Q s := by
  cases wanted with
  | false => exact hnot rfl
  | true => exact .act (hdo rfl)

/-- A step that does not fault comes to what it does after its delay. `K` is what all remains true
that neither takes time nor concerns contexts and calls. -/
theorem until_play (scene : Scene ι) {c : Context} {step : Step} (hstart : step.startFault = none)
    (hW : ∀ s s', W s s' → K s → K s')
    (hquiet : ∀ s s' : Session, s'.now = s.now → s'.registry = s.registry → s'.calls = s.calls →
      K s → K s')
    (hI : ∀ s', K s' → s'.now < s.now + step.delay.elim 0 Duration.waitMillis → I s')
    (hrest : ∀ s', K s' → s'.now = s.now + step.delay.elim 0 Duration.waitMillis →
      (scene.afterDelay ω c step).Until W bound I Q s') (hs : K s) :
    (scene.play ω c step).Until W bound I Q s := by
  have hdelayed : ∀ s', K s' → s'.now = s.now →
      (Call.guarded (scene.event .dropped) (step.delay.elim (scene.afterDelay ω c step)
        fun d => .sleep d.waitMillis (scene.afterDelay ω c step))).Until W bound I Q s' := by
    intro s' hs' hnow
    apply Call.Until.guarded
    cases hdelay : step.delay with
    | none =>
        rw [hdelay, Option.elim_none] at hrest
        exact hrest s' hs' hnow
    | some d =>
        rw [hdelay, Option.elim_some] at hI hrest
        refine .sleep hW ?_ ?_ (hquiet s' _ rfl rfl rfl hs')
        · rw [hnow]
          exact hI
        · rw [hnow]
          exact hrest
  have hdetached : ∀ s', K s' → s'.now = s.now →
      (doIf (step.detach.map fun d => .detach d.waitMillis (scene.event .detachedDone))
        (Call.guarded (scene.event .dropped) (step.delay.elim (scene.afterDelay ω c step)
          fun d => .sleep d.waitMillis (scene.afterDelay ω c step)))).Until W bound I Q s' := by
    intro s' hs' hnow
    cases step.detach with
    | none => exact hdelayed s' hs' hnow
    | some d => exact .act (hdelayed _ (hquiet s' _ rfl rfl rfl hs') hnow)
  have hplay : scene.play ω c step =
      doIf (if step.watch then some (.watch c (scene.event .sawCancellation)) else none)
        (doIf (step.detach.map fun d => .detach d.waitMillis (scene.event .detachedDone))
          (Call.guarded (scene.event .dropped) (step.delay.elim (scene.afterDelay ω c step)
            fun d => .sleep d.waitMillis (scene.afterDelay ω c step)))) := by
    unfold play
    rw [hstart]
    cases step.delay <;> rfl
  rw [hplay]
  refine until_doIf (fun _ => hdetached s hs rfl) fun _ => ?_
  have hwatch : (s.watch c (scene.event .sawCancellation)).now = s.now ∧
      (s.watch c (scene.event .sawCancellation)).registry = s.registry ∧
      (s.watch c (scene.event .sawCancellation)).calls = s.calls := by
    unfold Session.watch
    split <;> exact ⟨rfl, rfl, rfl⟩
  exact hdetached _ (hquiet s _ hwatch.1 hwatch.2.1 hwatch.2.2 hs) hwatch.1

end Scene

/-! ## Scripted agents -/

/-- The step that the agent plays in a call that comes after so many others. -/
def Agent.stepOf (first : Step) (rest : List Step) (call : Nat) : Step :=
  (first :: rest)[call]?.getD (rest.getLastD first)

/-- A scripted agent enters the start of the call and plays a step, behind its fault boundary. -/
theorem Agent.until_scripted {W : Session → Session → Prop} {bound : Option Nat}
    {I : Session → Prop} {Q : Ending (Datum ω) → Session → Prop} {serial : Nat} {name who : String}
    {first : Step} {rest : List Step} {input : Datum ι} {own : Context} {s : Session}
    (h : (Scene.play ⟨who, name, s.callsOf serial, input⟩ ω own
        (stepOf first rest (s.callsOf serial))).Until W bound I
      (fun ending s' => Q (.ofResult (ending.toResult name)) s')
      ((s.countCall serial).record
        (Scene.event ⟨who, name, s.callsOf serial, input⟩ (.started input.value)))) :
    ((scripted serial name who .shared first rest : Agent ι ω).execute input own).Until
      W bound I Q s := by
  refine Call.Until.andThen (.act (.act h)) fun ending s' hends => ?_
  rw [captureFault_toResult]
  exact .finish hends

/-- A scripted agent plays its steps, provided that these do not cancel the context of the call. -/
theorem Agent.takes_scripted {E : Surroundings} {own : Context} {s : Session}
    (hchange : ∀ s s', E.change s s' → s.Calm own → s'.Calm own) (hs : s.Calm own)
    (serial : Nat) (name who : String) (first : Step) (rest : List Step) (input : Datum ι)
    (hcancel : (stepOf first rest (s.callsOf serial)).cancel = false) :
    ((scripted serial name who .shared first rest : Agent ι ω).execute input own).Takes E [serial] s
      ((stepOf first rest (s.callsOf serial)).fate name
        ((stepOf first rest (s.callsOf serial)).conclusion.ending ω name own.node
          (s.callsOf serial) input)) := by
  let scene : Scene ι := ⟨who, name, s.callsOf serial, input⟩
  let K (s' : Session) : Prop := E.Spent [serial] s s' ∧ s'.Calm own
  have hspent : E.Spent [serial] s
      ((s.countCall serial).record (scene.event (.started input.value))) :=
    (Session.Spent.countCall s serial).trans_nil (.of_quiet rfl rfl rfl)
  have hstart : K ((s.countCall serial).record (scene.event (.started input.value))) :=
    ⟨hspent, hs.of_registry rfl⟩
  have hW : ∀ s' s'', E.change s' s'' → K s' → K s'' :=
    fun s' s'' h hK => ⟨hK.1.of_change h, hchange s' s'' h hK.2⟩
  have hquiet : ∀ s' s'' : Session, s''.now = s'.now → s''.registry = s'.registry →
      s''.calls = s'.calls → K s' → K s'' := fun s' s'' hnow hregistry hcalls hK =>
    ⟨hK.1.trans_nil (.of_quiet hnow hregistry hcalls), hK.2.of_registry hregistry⟩
  generalize hstep : stepOf first rest (s.callsOf serial) = step at hcancel ⊢
  cases hfault : step.startFault with
  | some fault =>
      rw [Step.fate, hfault]
      refine until_scripted ?_
      rw [hstep, Scene.play, hfault]
      exact .finish ⟨rfl, hspent, rfl⟩
  | none =>
      rw [Step.fate, hfault]
      cases hwait : step.waitCancel with
      | true =>
          intro time
          refine until_scripted ?_
          rw [hstep]
          refine scene.until_play hfault hW hquiet (fun s' hK _ => hK.1) (fun s' hK _ => ?_) hstart
          rw [Scene.afterDelay, hwait]
          exact Call.until_await_cancellation time hW (fun s' hK => hK.2.uncancelled)
            (fun s' hK => hK.1) hK
      | false =>
          refine until_scripted ?_
          rw [hstep]
          refine scene.until_play hfault hW hquiet (fun s' hK hearly => ⟨hK.1, hearly⟩)
            (fun s' hK htime => ?_) hstart
          rw [Scene.afterDelay, hwait, hcancel]
          refine .act (.finish ⟨rfl, ?_, htime⟩)
          exact hK.1.trans_nil (.of_quiet rfl rfl rfl)

end Orchestration
