import Orchestration.Proofs.Call.Timing
import Orchestration.Proofs.Policy.Scope

/-! # What becomes of executions

An execution ends after some time with some result, or never, whatever else happens to the session
meanwhile as long as its context is not cancelled. A time limit cuts it short. -/

namespace Orchestration

open List

namespace Session

/-- The context is not cancelled, and no token is before it is handed out. -/
structure Calm (c : Context) (s : Session) : Prop where
  issued : s.Issued c
  uncancelled : s.isCancelled c = false
  proper : ∀ id ∈ s.registry.cancelled, id < s.registry.nextToken

variable {c d : Context} {s s' s'' : Session} {counted : Nat → Prop} {made made' : List Nat}

/-- A context stays calm as tokens are handed out. -/
theorem Calm.mono (h : s.Calm c) (hcancelled : s'.registry.cancelled = s.registry.cancelled)
    (htokens : s.registry.nextToken ≤ s'.registry.nextToken) : s'.Calm c := by
  refine ⟨fun id hid => Nat.lt_of_lt_of_le (h.issued id hid) htokens, ?_, ?_⟩
  · have huncancelled := h.uncancelled
    rwa [isCancelled, Registry.isCancelled, ← hcancelled] at huncancelled
  · rw [hcancelled]
    exact fun id hid => Nat.lt_of_lt_of_le (h.proper id hid) htokens

theorem Calm.of_registry (h : s.Calm c) (hregistry : s'.registry = s.registry) : s'.Calm c :=
  h.mono (by rw [hregistry]) (Nat.le_of_eq (by rw [hregistry]))

/-- A context derived from a calm one is calm. -/
theorem Calm.derive (h : s.Calm c) : (s.derive c).2.Calm (s.derive c).1 := by
  have hmore : (s.derive c).2.Calm c := h.mono rfl (Nat.le_succ _)
  refine ⟨h.issued.derive, ?_, hmore.proper⟩
  have hfresh : s.registry.nextToken ∉ s.registry.cancelled :=
    fun hmem => Nat.lt_irrefl _ (h.proper _ hmem)
  have huncancelled := h.uncancelled
  simp only [isCancelled, Registry.isCancelled, any_eq_false, decide_eq_true_eq] at huncancelled ⊢
  intro id hid
  rw [derive_lineage] at hid
  rcases mem_cons.mp hid with rfl | hid
  · exact hfresh
  · exact huncancelled id hid

/-- All that a calm context is derived from is calm. -/
theorem Calm.of_subset (h : s.Calm d) (hsubset : c.token.lineage ⊆ d.token.lineage) :
    s.Calm c := by
  refine ⟨fun id hid => h.issued id (hsubset hid), ?_, h.proper⟩
  have huncancelled := h.uncancelled
  simp only [isCancelled, Registry.isCancelled, any_eq_false] at huncancelled ⊢
  exact fun id hid => huncancelled id (hsubset hid)

/-- The context of a node is calm when it is derived from a calm one. -/
theorem Calm.atNode (h : s.Calm c) (node : String) :
    (s.derive c).2.Calm ((s.derive c).1.atNode node) :=
  h.derive.of_subset (Subset.refl _)

/-- While the context of a node is calm, so is the one it is derived from. -/
theorem Calm.of_atNode {node : String} (h : s'.Calm ((s.derive c).1.atNode node)) : s'.Calm c :=
  h.of_subset (subset_cons_self ..)

theorem Calm.getD_isCancelled (h : s.Calm c) {own : Option Context} (hown : ∀ d ∈ own, d = c) :
    (own.map s.isCancelled).getD false = false := by
  cases own with
  | none => rfl
  | some d =>
    obtain rfl := hown d rfl
    exact h.uncancelled

/-- The second session can come after the first. The context stays calm, and of the agents that are
counted these have been called in between. -/
structure Spent (c : Context) (counted : Nat → Prop) (made : List Nat) (s s' : Session) : Prop
    extends s.Later s' where
  calm : s.Calm c → s'.Calm c
  calls : ∀ agent, counted agent → s'.callsOf agent = s.callsOf agent + made.count agent

namespace Spent

theorem trans (h : s.Spent c counted made s') (h' : s'.Spent c counted made' s'') :
    s.Spent c counted (made ++ made') s'' := by
  refine ⟨h.toLater.trans h'.toLater, fun hs => h'.calm (h.calm hs), fun agent hagent => ?_⟩
  rw [h'.calls agent hagent, h.calls agent hagent, count_append, Nat.add_assoc]

theorem trans_nil (h : s.Spent c counted made s') (h' : s'.Spent c counted [] s'') :
    s.Spent c counted made s'' := by
  have hspent := h.trans h'
  rwa [append_nil] at hspent

/-- Nothing is called while tokens are handed out and time passes. -/
theorem of_uncancelled (hlater : s.Later s')
    (hcancelled : s'.registry.cancelled = s.registry.cancelled) (hcalls : s'.calls = s.calls) :
    s.Spent c counted [] s' := by
  refine ⟨hlater, fun hs => hs.mono hcancelled hlater.tokens, fun agent _ => ?_⟩
  rw [callsOf, hcalls]
  rfl

/-- Nothing is called where only events are entered and timers are set. -/
theorem of_quiet (hnow : s'.now = s.now) (hregistry : s'.registry = s.registry)
    (hcalls : s'.calls = s.calls) : s.Spent c counted [] s' := by
  refine of_uncancelled ⟨Nat.le_of_eq hnow.symm, ?_, ?_⟩ (by rw [hregistry]) hcalls
  · exact Nat.le_of_eq (by rw [hregistry])
  · simp [hregistry]

theorem refl (s : Session) : s.Spent c counted [] s := of_quiet rfl rfl rfl

theorem derive (s : Session) (d : Context) : s.Spent c counted [] (s.derive d).2 :=
  of_uncancelled (Session.AtOnce.derive s d).toLater rfl rfl

theorem setTimer (s : Session) (millis : Nat) : s.Spent c counted [] (s.setTimer millis).2 :=
  of_quiet rfl rfl rfl

theorem advance (s : Session) {time : Nat} (h : s.now ≤ time) :
    s.Spent c counted [] (s.advance time) :=
  of_uncancelled (.advance s h) rfl rfl

theorem drop {α : Type} (call : Call α) (s : Session) : s.Spent c counted [] (call.drop s) :=
  of_quiet (call.drop_now s) (call.drop_registry s) (call.drop_calls s)

theorem countCall (s : Session) (serial : Nat) :
    s.Spent c counted [serial] (s.countCall serial) := by
  refine ⟨⟨Nat.le_refl _, Nat.le_refl _, Subset.refl _⟩,
    fun hs => hs.mono rfl (Nat.le_refl _), fun agent _ => ?_⟩
  rw [callsOf_countCall]
  by_cases hagent : agent = serial
  · subst hagent
    simp
  · simp [hagent, Ne.symm hagent]

/-- A context that is not derived from the one that is cancelled stays calm. -/
theorem cancel (hissued : s.Issued d) (hunder : ¬ c.Under d) :
    s.Spent c counted [] (s.cancel d) := by
  refine ⟨(AtOnce.cancel s d).toLater, fun hs => ⟨?_, ?_, ?_⟩, fun agent _ => ?_⟩
  · exact hs.issued.later (AtOnce.cancel s d).toLater
  · rw [isCancelled_cancel, hs.uncancelled]
    simpa [Context.Under] using hunder
  · rw [cancel_registry]
    intro id hid
    rcases mem_cons.mp hid with rfl | hid
    · exact hissued _ mem_cons_self
    · exact hs.proper id hid
  · rw [callsOf, cancel_calls]
    rfl

end Spent

end Session

/-! ## Surroundings -/

/-- Where a call is made: under a context, while the calls of some agents are counted and others
make changes that leave the context and the counted agents alone. -/
structure Surroundings where
  context : Context
  counted : Nat → Prop
  change : Session → Session → Prop
  spent : ∀ s s', change s s' → s.Spent context counted [] s'

/-- From one session to another, the context stays calm and just these agents are called. -/
abbrev Surroundings.Spent (E : Surroundings) (made : List Nat) (s s' : Session) : Prop :=
  s.Spent E.context E.counted made s'

/-- In which nothing happens but that time passes. -/
def Surroundings.quiet (c : Context) (counted : Nat → Prop) : Surroundings where
  context := c
  counted
  change s s' := ∃ time, s.now ≤ time ∧ s' = s.advance time
  spent := by
    rintro s _ ⟨time, hle, rfl⟩
    exact .advance s hle

theorem Surroundings.Spent.of_change {E : Surroundings} {made : List Nat} {s s' s'' : Session}
    (h : E.Spent made s s') (hchange : E.change s' s'') : E.Spent made s s'' :=
  h.trans_nil (E.spent s' s'' hchange)

/-! ## Fates -/

/-- What an execution comes to: its result after so many milliseconds, or nothing ever. -/
inductive Fate (α : Type) where
  | ends (millis : Nat) (result : Except Failure α)
  | never

def Ending.ofResult {α : Type} : Except Failure α → Ending α
  | .ok v => .value v
  | .error f => .failure f

namespace Fate

variable {α : Type}

/-- How long it takes, if it ends. -/
def millis : Fate α → Nat
  | ends millis _ => millis
  | never => 0

/-- What is left of it under a time limit. What ends just in time counts. -/
def limited (limit : Duration) (node : String) : Fate α → Fate α
  | ends millis result =>
    if millis ≤ limit.waitMillis then ends millis result
    else ends limit.waitMillis (.error (.timeout node limit))
  | never => ends limit.waitMillis (.error (.timeout node limit))

end Fate

/-- Executed now, the call comes to this, and just these agents are called, which holds from its
first poll on. -/
def Call.Takes {α : Type} (E : Surroundings) (made : List Nat) (call : Call α) (s : Session) :
    Fate α → Prop
  | .ends millis result =>
    call.Until E.change none (fun s' => E.Spent made s s' ∧ s'.now < s.now + millis)
      (fun ending s' => ending = .ofResult result ∧ E.Spent made s s' ∧ s'.now = s.now + millis) s
  | .never => ∀ time, call.Until E.change (some time) (E.Spent made s) (fun _ _ => False) s

/-! ## Executions -/

variable {ι ω : Kind}

/-- The fault boundary lets results pass. -/
theorem Agent.until_execute {a : Agent ι ω} {input : Datum ι} {c : Context} {s : Session}
    {W : Session → Session → Prop} {bound : Option Nat} {I : Session → Prop}
    {Q : Ending (Datum ω) → Session → Prop} (h : (a.start input c).Until W bound I Q s)
    (hresult : ∀ ending s', Q ending s' → ∃ result, ending = .ofResult result) :
    (a.execute input c).Until W bound I Q s := by
  refine h.andThen fun ending s' hends => ?_
  obtain ⟨result, rfl⟩ := hresult ending s' hends
  cases result with
  | ok v => exact .finish hends
  | error f => exact .finish hends

/-! ## Time limits -/

section Timeout

variable {E : Surroundings} {a : Agent ι ω} {input : Datum ι} {made : List Nat} {s : Session}
  {limit : Duration}

/-- The session in which a timed attempt starts to work. -/
def Session.timed (s : Session) (c : Context) (limit : Duration) : Session :=
  ((s.derive c).2.setTimer limit.waitMillis).2

theorem Session.timed_now (s : Session) (c : Context) (limit : Duration) :
    (s.timed c limit).now = s.now := rfl

theorem Session.Spent.timed {counted : Nat → Prop} (s : Session) (c d : Context)
    (limit : Duration) : s.Spent d counted [] (s.timed c limit) :=
  (Session.Spent.derive s c).trans (.setTimer _ _)

/-- When its time is over, an attempt is dropped and its own context is cancelled, which leaves the
given one alone. -/
theorem Session.Spent.expire {c : Context} {counted : Nat → Prop} {s' : Session}
    (hs : s.Calm c) (h : (s.timed c limit).Spent c counted made s') {α : Type} (rest : Call α) :
    s.Spent c counted made ((rest.drop s').cancel (s.derive c).1) := by
  have hset : (s.derive c).2.Spent c counted [] (s.timed c limit) := .setTimer _ _
  have hdropped : (s.timed c limit).Spent c counted made (rest.drop s') :=
    h.trans_nil (.drop rest s')
  have hissued : (rest.drop s').Issued (s.derive c).1 :=
    hs.issued.derive.later (hset.trans hdropped).toLater
  exact (Session.Spent.timed s c c limit).trans
    (hdropped.trans_nil (.cancel hissued (hs.issued.not_under_derive c)))

/-- An attempt that has not ended when its time is over times out. -/
theorem Agent.takes_timingOut_late (hs : s.Calm E.context)
    (h : (a.execute input (s.derive E.context).1).Until E.change (some (s.now + limit.waitMillis))
      (E.Spent made (s.timed E.context limit)) (fun _ _ => False) (s.timed E.context limit)) :
    ((a.timingOut limit).execute input E.context).Takes E made s
      (.ends limit.waitMillis (.error (.timeout (E.context.node.getD "") limit))) := by
  refine until_execute (.of_poll_eq (a.poll_timingOut limit input E.context s) ?_)
    fun ending s' hends => ⟨_, hends.1⟩
  refine (Call.Until.within (h.mono (fun _ hI => hI) fun _ _ => False.elim) ?_ ?_).mono
    ?_ fun _ _ hQ => hQ
  · exact Nat.le_add_right _ _
  · intro rest s' hspent hdue
    refine ⟨rfl, hspent.expire hs rest, ?_⟩
    rw [Session.cancel_now, Call.drop_now]
    exact hdue
  · rintro s' ⟨hspent, hearly⟩
    exact ⟨(Session.Spent.timed s E.context _ limit).trans hspent, hearly⟩

/-- A time limit cuts short what takes longer. -/
theorem Agent.takes_timingOut (hs : s.Calm E.context) {fate : Fate (Datum ω)}
    (h : ∀ own, own.Under E.context → own.node = E.context.node →
      (s.timed E.context limit).Calm own →
      (a.execute input own).Takes E made (s.timed E.context limit) fate) :
    ((a.timingOut limit).execute input E.context).Takes E made s
      (fate.limited limit (E.context.node.getD "")) := by
  have hattempt := h (s.derive E.context).1 (mem_cons_of_mem _ mem_cons_self) rfl
    (hs.derive.mono rfl (Nat.le_refl _))
  have hnow : (s.timed E.context limit).now ≤ s.now + limit.waitMillis := Nat.le_add_right _ _
  cases fate with
  | never => exact takes_timingOut_late hs (hattempt _)
  | ends millis result =>
      by_cases hmillis : millis ≤ limit.waitMillis
      · rw [Fate.limited, if_pos hmillis]
        refine until_execute (.of_poll_eq (a.poll_timingOut limit input E.context s) ?_)
          fun ending s' hends => ⟨_, hends.1⟩
        refine (Call.Until.within (Call.Until.bounded hattempt) hnow ?_).mono ?_ ?_
        · rintro rest s' ⟨-, hearly⟩ hdue
          rw [Session.timed_now] at hearly
          dsimp only at hdue
          omega
        · rintro s' ⟨⟨hspent, hearly⟩, -⟩
          exact ⟨(Session.Spent.timed s E.context _ limit).trans hspent, hearly⟩
        · rintro ending s' ⟨rfl, hspent, htime⟩
          exact ⟨rfl, (Session.Spent.timed s E.context _ limit).trans hspent, htime⟩
      · rw [Fate.limited, if_neg hmillis]
        refine takes_timingOut_late hs ?_
        refine ((Call.Until.bounded hattempt).le_bound hnow).mono (fun _ hI => hI.1) ?_
        rintro ending s' ⟨⟨-, -, htime⟩, hle⟩
        rw [Session.timed_now] at htime
        omega

end Timeout

end Orchestration
