import Orchestration.Proofs.Policy.Deadlines
import Orchestration.Proofs.Policy.Rows

/-! # Stacks of policies

A stack is an agent under layers of further attempts, time limits and stand-ins. How an execution
of a layer goes is told by the executions of what is under it and of its stand-in, one rule for each
way, and no execution goes in another way. -/

namespace Orchestration

open List

variable {ι ω : Kind}

/-- A policy around an agent. -/
inductive Layer (ι ω : Kind) where
  | retrying (p : RetryPolicy)
  | timingOut (limit : Duration)
  | orElse (fallback : Agent ι ω)

namespace Layer

/-- The agent under the policy. -/
def agent (inner : Agent ι ω) : Layer ι ω → Agent ι ω
  | retrying p => inner.retrying p
  | timingOut limit => inner.timingOut limit
  | orElse fallback => inner.orElse fallback

/-- How often what is under the layer is executed in one execution of it, at most. -/
def most : Layer ι ω → Nat
  | retrying p => max 1 p.maxAttempts.toNat
  | timingOut _ | orElse _ => 1

/-- Whether the layer hands copies of its input on. -/
def copies : Layer ι ω → Bool
  | timingOut _ => false
  | retrying _ | orElse _ => true

end Layer

/-- The agent under layers of policies, the outermost first. -/
def Agent.layered (base : Agent ι ω) : List (Layer ι ω) → Agent ι ω
  | [] => base
  | layer :: layers => layer.agent (base.layered layers)

/-- The product of the numbers of attempts that the layers allow. -/
def budget (layers : List (Layer ι ω)) : Nat := (layers.map Layer.most).prod

/-! ## Rules -/

/-- The executions that an execution of a layer is made of: those of what is under the layer, and
those of its stand-in. -/
structure Parts (ω : Kind) where
  inner : List (Episode ω)
  standIns : List (Episode ω)

/-- What becomes of a failure that a stand-in has tried to make up for. -/
def Ending.orFailure {α : Type} (f : Failure) : Ending α → Ending α
  | .value v => .value v
  | .failure _ | .fault _ => .failure f

/-- What an execution of a layer is made of. -/
inductive Layer.Consists (inner : Agent ι ω) (input : Datum ι) :
    Layer ι ω → Episode ω → Parts ω → Prop where
  /-- An input that cannot be copied is handed to nobody. -/
  | uncopied {fallback : Agent ι ω} {e : Episode ω} {fault : Fault}
      (hcopy : input.copy 0 = .error fault) (hgaps : e.gaps = [])
      (houtcome : e.outcome =
        some (.failure (.ofAgent inner.name ("panicked: " ++ fault.message))))
      (hfinish : e.finish = e.start) : Consists inner input (.orElse fallback) e ⟨[], []⟩
  /-- A row of attempts, with a failure in the place of the fault to which it may come. -/
  | retrying {p : RetryPolicy} {e : Episode ω} {outcome : Option (Ending (Datum ω))}
      {tries : List (Episode ω)}
      (houtcome : e.outcome = outcome.map (·.captured inner.name))
      (htries : inner.Tries p.backoff input e.context p.furtherAttempts 0 e.start e.gaps outcome
        e.finish tries) : Consists inner input (.retrying p) e ⟨tries, []⟩
  /-- The work keeps its time limit, so far. -/
  | inTime {limit : Duration} {e : Episode ω}
      (hgaps : ∀ gap ∈ e.gaps, gap.Before (e.start.now + limit.waitMillis))
      (hnow : e.outcome = none → e.finish.now < e.start.now + limit.waitMillis)
      (h : inner.Executes input ⟨(e.start.derive e.context).1, e.start.timed e.context limit,
        e.gaps, e.outcome, e.finish⟩) :
      Consists inner input (.timingOut limit) e
        ⟨[⟨(e.start.derive e.context).1, e.start.timed e.context limit, e.gaps, e.outcome,
          e.finish⟩], []⟩
  /-- The work is found waiting when its time is over, and dropped. -/
  | expired {limit : Duration} {e : Episode ω} {rest : Call (Datum ω)} {s₁ : Session}
      (hgaps : ∀ gap ∈ e.gaps, gap.Before (e.start.now + limit.waitMillis))
      (hnow : s₁.now = e.start.now + limit.waitMillis)
      (h : (inner.execute input (e.start.derive e.context).1).Polled
        (e.start.timed e.context limit) e.gaps (.waiting rest) s₁)
      (houtcome : e.outcome = some (.failure (.timeout (e.context.node.getD "") limit)))
      (hfinish : e.finish = (rest.drop s₁).cancel (e.start.derive e.context).1) :
      Consists inner input (.timingOut limit) e
        ⟨[⟨(e.start.derive e.context).1, e.start.timed e.context limit, e.gaps, none, s₁⟩], []⟩
  /-- The stand-in is not called, or not yet. -/
  | alone {fallback : Agent ι ω} {e : Episode ω} (hcopy : ∀ fault, input.copy 0 ≠ .error fault)
      (h : inner.Executes input e) (hends : ¬ e.Fails) :
      Consists inner input (.orElse fallback) e ⟨[e], []⟩
  /-- The stand-in is called when the primary agent has failed recoverably. -/
  | standsIn {fallback : Agent ι ω} {c : Context} {s s₁ s' : Session} {gaps gaps' : List Gap}
      {f : Failure} {outcome : Option (Ending (Datum ω))}
      (hcopy : ∀ fault, input.copy 0 ≠ .error fault)
      (h : inner.Executes input ⟨c, s, gaps, some (.failure f), s₁⟩) (hf : f.recoverable = true)
      (h' : fallback.Executes input ⟨c, s₁, gaps', outcome, s'⟩) :
      Consists inner input (.orElse fallback) ⟨c, s, gaps ++ gaps', outcome.map (·.orFailure f), s'⟩
        ⟨[⟨c, s, gaps, some (.failure f), s₁⟩], [⟨c, s₁, gaps', outcome, s'⟩]⟩

/-! ## The rules cover every execution -/

section Rules

variable {a inner fallback : Agent ι ω} {backoff : Backoff} {input : Datum ι} {c : Context}
  {s s' : Session} {gaps : List Gap} {outcome : Option (Ending (Datum ω))} {e : Episode ω}
  {layer : Layer ι ω} {parts : Parts ω}

theorem Agent.executes_timingOut_iff (limit : Duration) :
    (inner.timingOut limit).Executes input e ↔
      ∃ parts, (Layer.timingOut limit).Consists inner input e parts := by
  obtain ⟨c, s, gaps, outcome, s'⟩ := e
  cases outcome with
  | none =>
      constructor
      · rintro ⟨left, h⟩
        obtain ⟨hgaps, hnow, rest, -, hwaits⟩ := waiting_timingOut_iff.mp h
        exact ⟨_, .inTime hgaps (fun _ => hnow) ⟨rest, hwaits⟩⟩
      · rintro ⟨parts, h⟩
        cases h with
        | inTime hgaps hnow h =>
            obtain ⟨rest, hwaits⟩ := h
            exact ⟨_, waiting_timingOut_iff.mpr ⟨hgaps, hnow rfl, rest, rfl, hwaits⟩⟩
        | expired _ _ _ houtcome => cases houtcome
  | some ending =>
      change ((inner.timingOut limit).execute input c).Polled s gaps (.ended ending) s' ↔ _
      refine polled_timingOut_iff.trans ⟨fun h => ?_, ?_⟩
      · cases h with
        | ends hgaps hends => exact ⟨_, .inTime hgaps nofun hends⟩
        | expires hgaps hwaits hnow hdropped => exact ⟨_, .expired hgaps hnow hwaits rfl hdropped⟩
      · rintro ⟨parts, h⟩
        cases h with
        | inTime hgaps _ h => exact .ends hgaps h
        | expired hgaps hnow h houtcome hfinish =>
            obtain rfl : ending = .failure (.timeout (c.node.getD "") limit) :=
              Option.some.inj houtcome
            exact .expires hgaps h hnow hfinish

/-- A final ending of the primary agent is that of the whole, and a failure that can be recovered
from stands unless the stand-in succeeds. -/
theorem Agent.exists_next_orElse (a fallback : Agent ι ω)
    (hcopy : ∀ fault, input.copy 0 ≠ .error fault) (c : Context) :
    ∃ next, (a.orElse fallback).start input c = (a.execute input c).andThen next ∧
      (∀ ending : Ending (Datum ω), ending.Final → next ending = .finish ending) ∧
      ∀ f : Failure, f.recoverable = true → next (.failure f) =
        (fallback.execute input c).andThen fun ending => .finish (ending.orFailure f) := by
  refine ⟨_, withCopy_of_copies hcopy _, fun ending hfinal => ?_, fun f hf => ?_⟩
  · cases ending with
    | value v => rfl
    | failure f => exact if_neg (Bool.eq_false_iff.mp hfinal)
    | fault f => exact hfinal.elim
  · refine (if_pos hf).trans (congrArg _ (funext fun ending => ?_))
    cases ending <;> rfl

theorem Agent.goes_start_orElse_iff (hcopy : ∀ fault, input.copy 0 ≠ .error fault) :
    ((a.orElse fallback).start input c).Goes s gaps outcome s' ↔
      ∃ parts, (Layer.orElse fallback).Consists a input ⟨c, s, gaps, outcome, s'⟩ parts := by
  obtain ⟨next, hstart, hfinal, hfails⟩ := a.exists_next_orElse fallback hcopy c
  rw [hstart, Call.goes_andThen_iff]
  constructor
  · rintro (⟨rfl, hwaits⟩ | ⟨first, gaps₁, gaps₂, s₁, rfl, hfirst, hnext⟩)
    · exact ⟨_, .alone hcopy hwaits (by rintro ⟨f, ⟨⟩, -⟩)⟩
    · by_cases hends : first.Final
      · rw [hfinal first hends] at hnext
        obtain ⟨rfl, rfl, rfl⟩ := Call.goes_finish_iff.mp hnext
        rw [append_nil]
        refine ⟨_, .alone hcopy hfirst ?_⟩
        rintro ⟨f, ⟨⟩, hf⟩
        exact absurd hf (Bool.eq_false_iff.mp hends)
      · obtain ⟨f, rfl, hf⟩ :=
          Ending.exists_failure_of_not_final hends (ne_fault_of_polled hfirst)
        rw [hfails f hf] at hnext
        obtain ⟨outcome, rfl, h'⟩ := Call.goes_map_iff.mp hnext
        exact ⟨_, .standsIn hcopy hfirst hf h'⟩
  · rintro ⟨parts, h⟩
    cases h with
    | uncopied hcopy' => exact absurd hcopy' (hcopy _)
    | alone _ h hends =>
        cases outcome with
        | none => exact .inl ⟨rfl, h⟩
        | some ending =>
            have hending : ending.Final := by
              by_contra hgoes
              obtain ⟨f, rfl, hf⟩ :=
                Ending.exists_failure_of_not_final hgoes (ne_fault_of_polled h)
              exact hends ⟨f, rfl, hf⟩
            refine .inr ⟨ending, gaps, [], s', (append_nil _).symm, h, ?_⟩
            rw [hfinal ending hending]
            exact Call.goes_finish_iff.mpr ⟨rfl, rfl, rfl⟩
    | standsIn _ h hf h' =>
        refine .inr ⟨_, _, _, _, rfl, h, ?_⟩
        rw [hfails _ hf]
        exact Call.goes_map_iff.mpr ⟨_, rfl, h'⟩

theorem Layer.Consists.ne_fault (h : layer.Consists inner input e parts) (f : Fault) :
    e.outcome ≠ some (.fault f) := by
  cases h with
  | uncopied _ _ houtcome | expired _ _ _ houtcome =>
      rw [houtcome]
      nofun
  | @retrying _ _ outcome _ houtcome =>
      rw [houtcome]
      cases outcome with
      | none => nofun
      | some ending => simpa using ending.captured_ne_fault inner.name f
  | inTime _ _ h | alone _ h => exact h.ne_fault f
  | @standsIn _ _ _ _ _ _ _ _ outcome =>
      cases outcome with
      | none => nofun
      | some ending => cases ending <;> nofun

/-- An input that cannot be copied keeps the stand-in from being called, too. -/
theorem Agent.start_orElse_of_error {fault : Fault} (hcopy : input.copy 0 = .error fault) :
    (a.orElse fallback).start input c = .finish (.fault fault) :=
  withCopy_of_error hcopy _

theorem Agent.executes_orElse_iff : (a.orElse fallback).Executes input e ↔
    ∃ parts, (Layer.orElse fallback).Consists a input e parts := by
  refine goes_execute_iff.trans ?_
  cases hcopy : input.copy 0 with
  | error fault =>
      rw [start_orElse_of_error hcopy]
      simp only [Call.goes_finish_iff]
      constructor
      · rintro ⟨_, houtcome, hgaps, rfl, hfinish⟩
        exact ⟨_, .uncopied hcopy hgaps houtcome hfinish⟩
      · rintro ⟨parts, h⟩
        cases h with
        | uncopied hcopy' hgaps houtcome hfinish =>
            cases hcopy.symm.trans hcopy'
            exact ⟨some (.fault fault), houtcome, hgaps, rfl, hfinish⟩
        | alone hcopy' | standsIn hcopy' => exact absurd hcopy (hcopy' fault)
  | ok copy =>
      have hcopies : ∀ fault, input.copy 0 ≠ .error fault := by simp [hcopy]
      constructor
      · rintro ⟨outcome, houtcome, hgoes⟩
        obtain ⟨parts, h⟩ := (goes_start_orElse_iff hcopies).mp hgoes
        obtain rfl : e.outcome = outcome :=
          houtcome.trans (Ending.map_captured a.name h.ne_fault)
        exact ⟨parts, h⟩
      · rintro ⟨parts, h⟩
        exact ⟨e.outcome, (Ending.map_captured a.name h.ne_fault).symm,
          (goes_start_orElse_iff hcopies).mpr ⟨parts, h⟩⟩

/-- An execution of a layer goes in one of these ways, and each of them is one. -/
theorem Layer.executes_iff : (layer.agent inner).Executes input e ↔
    ∃ parts, layer.Consists inner input e parts := by
  cases layer with
  | timingOut limit => exact Agent.executes_timingOut_iff limit
  | orElse fallback => exact Agent.executes_orElse_iff
  | retrying p =>
      refine (Agent.executes_retrying_iff p).trans ⟨?_, ?_⟩
      · rintro ⟨outcome, tries, houtcome, htries⟩
        exact ⟨_, .retrying houtcome htries⟩
      · rintro ⟨parts, h⟩
        cases h with
        | retrying houtcome htries => exact ⟨_, _, houtcome, htries⟩

end Rules

end Orchestration
