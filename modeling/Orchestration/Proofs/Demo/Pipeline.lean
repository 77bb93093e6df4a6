import Mathlib.Algebra.Order.BigOperators.Group.List
import Mathlib.Algebra.Group.Action.Defs
import Mathlib.Algebra.Order.Ring.Nat
import Orchestration.Demo
import Orchestration.Proofs.Policy.Law
import Orchestration.Proofs.Run.Relay

/-! # What the pipeline comes to

Under every configuration the pipeline succeeds: either an attempt of the processor tidies the text,
or the stand-in hands it on as it is. Only the waits between attempts take time. -/

namespace Orchestration

open List

/-! ## Agents that end at once -/

/-- An agent whose work ends at once takes no time. -/
theorem Agent.takes_ofFunction {ι ω : Kind} (E : Surroundings) (own : Context) (s : Session)
    (serial : Nat) (name : String) (f : Nat → Datum ι → Ending (Datum ω)) (input : Datum ι) :
    ((Agent.ofFunction serial name f).execute input own).Takes E [serial] s
      (.ends 0 ((f (s.callsOf serial) input).toResult name)) := by
  have hpoll : ((ofFunction serial name f).execute input own).poll s =
      (.ended (.ofResult ((f (s.callsOf serial) input).toResult name)), s.countCall serial) := by
    simp [execute, ofFunction, Call.poll, Session.perform, captureFault_toResult]
  exact .ended hpoll ⟨rfl, .countCall s serial, rfl⟩

/-- No wait takes longer than this. -/
theorem Duration.waitMillis_le (d : Duration) : d.waitMillis ≤ UInt64.size * 1000 := by
  have hnanos := d.nanos_lt
  rw [waitMillis, nanosPerMilli, ← Nat.lt_succ_iff, Nat.div_lt_iff_lt_mul (by decide)]
  calc d.nanos + (1_000_000 - 1) < UInt64.size * nanosPerSecond + 1_000_000 :=
        Nat.add_lt_add_of_lt_of_le hnanos (by decide)
    _ = (UInt64.size * 1000).succ * 1_000_000 := by decide

namespace Config

/-- How many attempts the configuration allows. -/
def attempts (c : Config) : Nat := c.policies.retry.elim 1 fun r => max 1 r.maxAttempts.toNat

/-- The wait after so many failed attempts, in milliseconds. -/
def wait (c : Config) (failures : Nat) : Nat :=
  c.policies.retry.elim 0 fun r => (r.policy.backoff.delay failures).waitMillis

variable {ι ω : Kind} (c : Config) (fallback : Option (Agent ι ω))

theorem maxAttempts_policySet : (c.policies.policySet fallback).maxAttempts = c.attempts := by
  unfold PolicySet.maxAttempts PolicyConfig.policySet attempts
  cases c.policies.retry with
  | none => rfl
  | some r =>
    simp only [Option.map_some, Option.elim_some, RetryConfig.policy, RetryPolicy.atLeastOne]
    split
    · simp [*]
    · rfl

theorem pause_policySet (failures : Nat) :
    (c.policies.policySet fallback).pause failures = c.wait failures := by
  simp [PolicySet.pause, PolicyConfig.policySet, wait, Option.elim_map, Function.comp_def]

theorem wait_le (failures : Nat) : c.wait failures ≤ UInt64.size * 1000 := by
  unfold wait
  cases c.policies.retry with
  | none =>
    rw [Option.elim_none]
    exact Nat.zero_le _
  | some r =>
    rw [Option.elim_some]
    exact Duration.waitMillis_le _

/-- What takes no time is in time. -/
theorem counted_policySet {α : Type} (own : Context) (result : Except Failure α) :
    (c.policies.policySet fallback).counted own (.ends 0 result) = .ends 0 result := by
  unfold PolicySet.counted
  cases (c.policies.policySet fallback).timeout with
  | none => rfl
  | some limit => rw [Option.elim_some, Fate.limited, if_pos (Nat.zero_le _)]

/-- Attempts that take no time start when the waits before them are over. -/
theorem startOf_policySet {α : Type} (own : Context) {fate : Nat → Fate α}
    (hfate : ∀ j, ∃ result, fate j = .ends 0 result) (start j : Nat) :
    (c.policies.policySet fallback).startOf own fate start j =
      start + ((range j).map fun k => c.wait (k + 1)).sum := by
  induction j with
  | zero => rfl
  | succ j ih =>
    obtain ⟨result, hresult⟩ := hfate j
    rw [PolicySet.startOf, ih, hresult, counted_policySet, pause_policySet, range_succ]
    simp [Fate.millis, Nat.add_assoc]

end Config

namespace Demo

variable (config : Config) (flaky : UInt32) (input : String)

/-- How many attempts of the processor fail and are followed by another. -/
def failures : Nat := min flaky.toNat (config.attempts - 1)

/-- What the processor or its stand-in comes to. -/
def processed : String := if flaky.toNat < config.attempts then tidy input else input

/-- How long the waits take. -/
def waited : Nat := ((range (failures config flaky)).map fun k => config.wait (k + 1)).sum

/-- What an attempt of the processor comes to. -/
def attemptFate (j : Nat) : Fate (Datum .text) :=
  .ends 0 <| if j < flaky.toNat then .error (.ofAgent "processor" "simulated transient failure")
    else .ok (.ofText (tidy input))

/-- While nothing happens but that time passes. -/
abbrev quiet (c : Context) : Surroundings := .quiet c fun _ => True

variable {c : Context} {s : Session}

theorem tried_processor (hs : s.Calm c) (hcalls : s.callsOf 0 = 0) :
    (processor flaky).Tried (quiet c)
      (config.policies.policySet (some processorFallback)) (.ofText input) [0]
      (attemptFate flaky input) s := by
  refine ⟨fun _ _ => rfl, hs, fun j _ own s' _ _ hspent _ _ => ?_⟩
  have hcount : s'.callsOf 0 = j := by
    rw [hspent.calls 0 trivial, hcalls]
    simp
  have htakes : ((processor flaky).execute (.ofText input) own).Takes (quiet c) [0] s' _ :=
    Agent.takes_ofFunction ..
  rw [hcount] at htakes
  unfold attemptFate
  by_cases hfails : j < flaky.toNat
  · simp only [hfails, if_true] at htakes ⊢
    exact htakes
  · simp only [hfails, if_false] at htakes ⊢
    exact htakes

theorem again_attemptFate_iff (own : Context) (j : Nat) :
    ((config.policies.policySet (some processorFallback)).counted own
      (attemptFate flaky input j)).again = true ↔ j < flaky.toNat := by
  rw [attemptFate, Config.counted_policySet, Fate.again]
  split <;> simp [recoverable, Failure.recoverable, Failure.ofAgent, *]

theorem failures_lt : failures config flaky < config.attempts := by
  have hpos := (config.policies.policySet (some processorFallback)).maxAttempts_pos
  rw [Config.maxAttempts_policySet] at hpos
  unfold failures
  omega

/-- The attempt after all that fail and are followed by another is the last one. -/
theorem lawful_processor (hs : s.Calm c) (hcalls : s.callsOf 0 = 0) :
    (processor flaky).Lawful (quiet c) (config.policies.policySet (some processorFallback))
      (.ofText input) [0] (attemptFate flaky input) s (failures config flaky) := by
  refine (tried_processor config flaky input hs hcalls).lawful ?_ ?_ ?_
  · rw [Config.maxAttempts_policySet]
    exact failures_lt config flaky
  · intro j hj
    apply (again_attemptFate_iff config flaky input c j).mpr
    exact Nat.lt_of_lt_of_le hj (Nat.min_le_left ..)
  · intro hagain
    have hlt := (again_attemptFate_iff config flaky input c _).mp hagain
    have hmost := failures_lt config flaky
    rw [Config.maxAttempts_policySet]
    unfold failures at hlt hmost ⊢
    omega

theorem calm_of_paced (hs : s.Calm c) {p : PolicySet .text .text} {fate : Nat → Fate (Datum .text)}
    {made : List Nat} {last : Nat} {s' : Session} (h : p.Paced (quiet c) made fate s last s') :
    s'.Calm c := by
  obtain ⟨j, -, hspent, -⟩ := h
  exact hspent.calm hs

/-- The processor comes to its text after all waits, and is called once more than it fails. -/
theorem until_processor (hs : s.Calm c) (hcalls : s.callsOf 0 = 0) :
    (((processor flaky).withPolicies (config.policies.policySet
      (some processorFallback))).execute (.ofText input) c).Until (quiet c).change none (·.Calm c)
      (fun ending s' => ending = .value (.ofText (processed config flaky input)) ∧ s'.Calm c ∧
        s'.now = s.now + waited config flaky ∧ s'.callsOf 0 = failures config flaky + 1) s := by
  let p : PolicySet .text .text := config.policies.policySet (some processorFallback)
  have hlawful := lawful_processor config flaky input hs hcalls
  have hstart : p.startOf c (attemptFate flaky input) s.now (failures config flaky) =
      s.now + waited config flaky :=
    config.startOf_policySet _ c (fun j => ⟨_, rfl⟩) _ _
  by_cases hflaky : flaky.toNat < config.attempts
  · have hfate : p.counted c (attemptFate flaky input (failures config flaky)) =
        .ends 0 (.ok (.ofText (tidy input))) := by
      have hlast : ¬ failures config flaky < flaky.toNat := by
        unfold failures
        omega
      rw [attemptFate, if_neg hlast, Config.counted_policySet]
    refine (hlawful.stands 0 _ hfate (.inr rfl)).polled.mono (fun _ => calm_of_paced hs) ?_
    rintro _ s' ⟨rfl, hnow, hspent⟩
    refine ⟨?_, hspent.calm hs, ?_, ?_⟩
    · rw [processed, if_pos hflaky]
      rfl
    · exact hnow.trans hstart
    · rw [hspent.calls 0 trivial, hcalls]
      simp
  · have hfate : p.counted c (attemptFate flaky input (failures config flaky)) =
        .ends 0 (.error (.ofAgent "processor" "simulated transient failure")) := by
      have hlast : failures config flaky < flaky.toNat := by
        have hmost := failures_lt config flaky
        omega
      rw [attemptFate, if_pos hlast, Config.counted_policySet]
    obtain ⟨-, hends⟩ := hlawful.standIn processorFallback rfl 0 _ hfate rfl [1]
      (.ends 0 (.ok (.ofText input))) fun s' _ _ => Agent.takes_ofFunction ..
    refine (hends 0 _ rfl).polled.mono ?_ ?_
    · rintro s' (hpaced | ⟨hspent, -⟩)
      · exact calm_of_paced hs hpaced
      · exact hspent.calm hs
    · rintro _ s' ⟨rfl, hnow, hspent⟩
      refine ⟨?_, hspent.calm hs, ?_, ?_⟩
      · rw [processed, if_neg hflaky]
        rfl
      · exact hnow.trans hstart
      · rw [hspent.calls 0 trivial, hcalls]
        simp

/-- The summarizer comes to its text at once. -/
theorem until_summarizer (hs : s.Calm c) (text : String) :
    ((summarizer.withPolicies (config.policies.policySet none)).execute (.ofText text) c).Until
      (quiet c).change none (·.Calm c)
      (fun ending s' => ending = .value (.ofText (summary text)) ∧ s'.Calm c ∧ s'.now = s.now ∧
        s'.callsOf 0 = s.callsOf 0) s := by
  let p : PolicySet .text .text := config.policies.policySet none
  let fate (_ : Nat) : Fate (Datum .text) := .ends 0 (.ok (.ofText (summary text)))
  have htried : summarizer.Tried (quiet c) p (.ofText text) [2] fate s :=
    ⟨fun _ _ => rfl, hs, fun _ _ _ _ _ _ _ _ _ => Agent.takes_ofFunction ..⟩
  have hfate : ∀ j, p.counted (quiet c).context (fate j) =
      .ends 0 (.ok (.ofText (summary text))) := fun j => config.counted_policySet none c _
  have hlawful : summarizer.Lawful (quiet c) p (.ofText text) [2] fate s 0 :=
    htried.lawful p.maxAttempts_pos (fun j hj => absurd hj (Nat.not_lt_zero j))
      (by rw [hfate 0]; nofun)
  refine (hlawful.stands 0 _ (hfate 0) (.inl rfl)).polled.mono (fun _ => calm_of_paced hs) ?_
  rintro _ s' ⟨rfl, hnow, hspent⟩
  refine ⟨rfl, hspent.calm hs, hnow, ?_⟩
  rw [hspent.calls 0 trivial]
  simp

/-! ## The run -/

def processorNode : Node :=
  ⟨"processor", .text, .text,
    (processor flaky).withPolicies (config.policies.policySet (some processorFallback))⟩

def summarizerNode : Node :=
  ⟨"summarizer", .text, .text, summarizer.withPolicies (config.policies.policySet none)⟩

/-- The plan that is built. -/
def plan : Plan :=
  ⟨[processorNode config flaky, summarizerNode config], [.between "processor" "summarizer"],
    [("processor", "summarizer")], ["processor", "summarizer"]⟩

theorem pipeline_eq : pipeline config flaky = .ok (plan config flaky) := rfl

/-- The job on a text. -/
def job (c : Context) : Job :=
  ⟨plan config flaky, .ofList [("processor", .text input)], config.maxConcurrency, c⟩

/-- Both texts. -/
def outputs : NodeValues :=
  let text := processed config flaky input
  ⟨[("processor", .text text), ("summarizer", .text (summary text))]⟩

/-- A node that comes to a value does so if its agent does. -/
theorem until_call {n : Node} {d : Datum n.input} {v : Datum n.output} (hcopy : d.copy 0 = .ok d)
    {W : Session → Session → Prop} {I R : Session → Prop}
    (h : (n.agent.execute d c).Until W none I (fun ending s' => ending = .value v ∧ R s') s) :
    (n.call d.value c).Until W none I (fun ending s' => ending = .value v ∧ R s') s := by
  have hcall : n.call d.value c = (n.agent.execute d c).andThen n.ascribe := by
    simp [Node.call, Value.as?, d.kind_eq, withCopy, hcopy]
  rw [hcall]
  refine Call.Until.andThen h ?_
  rintro _ s' ⟨rfl, hs'⟩
  exact .finish ⟨rfl, hs'⟩

/-- All waits are over before the patience is. -/
theorem waited_lt : waited config flaky < patience := by
  have hsum := sum_le_card_nsmul ((range (failures config flaky)).map fun k => config.wait (k + 1))
    (UInt64.size * 1000) (by
      intro wait hwait
      obtain ⟨k, -, rfl⟩ := mem_map.mp hwait
      exact config.wait_le (k + 1))
  have hfew : failures config flaky < UInt32.size :=
    Nat.lt_of_le_of_lt (Nat.min_le_left ..) flaky.toNat_lt
  rw [length_map, length_range, smul_eq_mul] at hsum
  calc waited config flaky ≤ failures config flaky * (UInt64.size * 1000) := hsum
    _ ≤ UInt32.size * (UInt64.size * 1000) := Nat.mul_le_mul_right _ hfew.le
    _ < patience := by decide

/-- Alone on a timeline, the pipeline comes to both texts when all waits are over. -/
theorem settle_job (hs : s.Calm c) (hcalls : s.callsOf 0 = 0) (own : Option Context)
    (hown : ∀ d ∈ own, d = c) :
    ∃ s', Timeline.settle s.now (s.now + patience) ((job config flaky input c).alone own) s =
      ([⟨some (.ok (outputs config flaky input)), waited config flaky, false⟩], s') ∧
      s'.callsOf 0 = failures config flaky + 1 := by
  let j := job config flaky input c
  let scope := (s.derive c).1
  let s₁ := (s.derive c).2
  have hscope : s₁.Calm scope := hs.derive
  have hhorizon := waited_lt config flaky
  have hpasses : ∀ (s : Session) (time : Nat), s.now < time →
      (quiet c).change s (s.advance time) := fun s time hlt => ⟨time, hlt.le, rfl⟩
  have hbegin : j.begin s = (.waiting ⟨j, scope, [(processorNode config flaky, .text input)], [],
      [], .empty⟩, s₁) := rfl
  obtain ⟨hprocessing, hsettle⟩ := j.settle_of_begin hbegin rfl rfl rfl hscope.uncancelled s.now
    (s.now + patience) own (by omega)
  -- the processor is in flight, and the run observes what it comes to after all waits
  let c₁ := (s₁.derive scope).1.atNode "processor"
  have hc₁ : (s₁.derive scope).2.Calm c₁ := hscope.atNode "processor"
  have hprocess := until_call (n := processorNode config flaky) (d := .ofText input) rfl
    (until_processor config flaky input hc₁ hcalls)
  obtain ⟨s₂, left, ⟨hc₂, hnow₂, hcalls₂⟩, hleft, hmost, hsummarizing, hgoOn⟩ :=
    hprocessing.exists_handedOn s.now (s.now + patience) own hpasses hprocess
      (fun s' hs' => hs'.of_atNode.uncancelled) (fun s' hs' => by
        have hnow : s'.now = s.now + waited config flaky := hs'.2.1
        exact ⟨hs'.1.of_atNode.uncancelled, by omega⟩) (Nat.succ_pos _) (Nat.le_refl _) rfl
  have hnow₂ : s₂.now = s.now + waited config flaky := hnow₂
  have hpositive : 0 < left := Nat.le_of_succ_le_succ (Nat.le_of_succ_le hleft)
  have hlimit : left ≤ 3 := Nat.le_succ_of_le hmost
  -- the summarizer is in flight, and the run succeeds at the same time
  let c₂ := (s₂.derive scope).1.atNode "summarizer"
  have hc₂ : (s₂.derive scope).2.Calm c₂ := hc₂.of_atNode.atNode "summarizer"
  have hsummarize := until_call (n := summarizerNode config)
    (d := .ofText (processed config flaky input)) rfl
    (until_summarizer config hc₂ (processed config flaky input))
  obtain ⟨s₃, ⟨hc₃, hnow₃, hcalls₃⟩, hend⟩ :=
    hsummarizing.exists_succeeded s.now (s.now + patience) own hpasses hsummarize
      (fun s' hs' => hs'.of_atNode.uncancelled) (fun s' hs' => by
        have hnow : s'.now = s₂.now := hs'.2.1
        exact ⟨hs'.1.of_atNode.uncancelled, by omega⟩) hpositive hlimit rfl
  have hnow₃ : s₃.now = s₂.now := hnow₃
  have hcalls₃ : s₃.callsOf 0 = s₂.callsOf 0 := hcalls₃
  -- the run cancels its scope at its end, but not the context that was given to it
  have hscope₃ : s₃.Calm scope := hc₃.of_atNode
  have hspent : (quiet c).Spent [] s₃ (s₃.cancel scope) :=
    .cancel hscope₃.issued (hs.issued.not_under_derive c)
  have hcalm : (s₃.cancel scope).Calm c :=
    hspent.calm (hscope₃.of_subset (subset_cons_self ..))
  have helapsed : s₃.now - s.now = waited config flaky := by omega
  refine ⟨s₃.cancel scope, ?_, ?_⟩
  · rw [hsettle]
    refine hgoOn.trans (hend.trans ?_)
    rw [helapsed]
    change ([Report.mk _ _ ((own.map (s₃.cancel scope).isCancelled).getD false)],
      s₃.cancel scope) = _
    rw [hcalm.getD_isCancelled hown]
    rfl
  · rw [hspent.calls 0 trivial, hcalls₃, hcalls₂, count_nil]

/-- Whenever nobody cancels the context, this is what the pipeline comes to. -/
theorem together_pipeline (occasion : Option Occasion)
    (hcalm : ∀ o ∈ occasion, o.cancelled = false ∧ o.cancelAfter = none) :
    ∃ s', Timeline.together patience
        [(execution (plan config flaky) config input, occasion)] .initial =
      ([⟨some (.ok (outputs config flaky input)), waited config flaky, false⟩], s') ∧
      s'.callsOf 0 = failures config flaky + 1 := by
  let c : Context := Session.initial.isolate.1
  let s : Session := Session.initial.isolate.2
  have hs : s.Calm c := by
    refine ⟨fun id hid => ?_, rfl, nofun⟩
    obtain rfl := mem_singleton.mp hid
    exact Nat.one_pos
  cases occasion with
  | none => exact settle_job config flaky input hs rfl none nofun
  | some o =>
    obtain ⟨node, cancelled, cancelAfter⟩ := o
    obtain ⟨rfl, rfl⟩ := hcalm _ rfl
    cases node with
    | none => exact settle_job config flaky input hs rfl (some c) (by simp)
    | some node =>
      let d := (s.derive c).1.atNode node
      have hd : (s.derive c).2.Calm d := hs.atNode node
      exact settle_job config flaky input hd rfl (some d) (by simp)

/-- Unless it is cancelled, the run yields both texts. -/
theorem run_eq (occasion : Option Occasion)
    (hcalm : ∀ o ∈ occasion, o.cancelled = false ∧ o.cancelAfter = none) :
    run config flaky input occasion =
      ⟨some (.ok (outputs config flaky input)), waited config flaky, false⟩ := by
  obtain ⟨s, hruns, -⟩ := together_pipeline config flaky input occasion hcalm
  rw [run, pipeline_eq]
  dsimp only
  rw [hruns]
  rfl

/-- However flaky the processor is, an uncancelled run yields both texts: those of the tidied text
if an attempt is left that does not fail, and otherwise those of the text as it is. The processor,
the agent with number 0, is called until it no longer fails or no attempt is left, and the waits
between these calls are all that takes time. -/
theorem run_flaky :
    let most := config.attempts
    let retries := min flaky.toNat (most - 1)
    let text := if flaky.toNat < most then tidy input else input
    let report : Report RunResult :=
      ⟨some (.ok ⟨[("processor", .text text), ("summarizer", .text (summary text))]⟩),
        ((range retries).map fun k => config.wait (k + 1)).sum, false⟩
    ∃ plan, pipeline config flaky = .ok plan ∧ plan.nodes.map (·.id) = nodeNames ∧
      ∀ occasion : Option Occasion,
        (∀ o ∈ occasion, o.cancelled = false ∧ o.cancelAfter = none) →
        run config flaky input occasion = report ∧
        ∃ s, Timeline.together patience [(execution plan config input, occasion)] .initial =
            ([report], s) ∧
          s.callsOf 0 = min (flaky.toNat + 1) most := by
  intro most retries text report
  refine ⟨plan config flaky, rfl, rfl, fun occasion hcalm => ?_⟩
  obtain ⟨s, hruns, hcalls⟩ := together_pipeline config flaky input occasion hcalm
  have hlt := failures_lt config flaky
  have hmost : failures config flaky + 1 = min (flaky.toNat + 1) config.attempts := by
    unfold failures at hlt ⊢
    omega
  exact ⟨run_eq config flaky input occasion hcalm, s, hruns, hcalls.trans hmost⟩

/-- Three attempts a quarter of a second apart, one node at a time, and no time for any attempt. -/
def hurried : Config := ⟨⟨some 1⟩, ⟨some ⟨3, 250, none, none⟩, some 0⟩⟩

/-- The last attempt tidies the text, and with one more failure there would be none. -/
theorem run_flaky_hurried :
    (run hurried 2 " a  b" none).elapsed = 500 ∧
    (run hurried 2 " a  b" none).result = some (.ok
      ⟨[("processor", .text "A B"), ("summarizer", .text "2 word(s), 3 char(s): A B")]⟩) ∧
    (run hurried 3 " a  b" none).elapsed = 500 ∧
    (run hurried 3 " a  b" none).result = some (.ok
      ⟨[("processor", .text " a  b"), ("summarizer", .text "2 word(s), 5 char(s):  a  b")]⟩) := by
  obtain ⟨_, -, -, hkept⟩ := run_flaky hurried 2 " a  b"
  obtain ⟨_, -, -, hlost⟩ := run_flaky hurried 3 " a  b"
  rw [(hkept none nofun).1, (hlost none nofun).1]
  refine ⟨?_, ?_, ?_, ?_⟩
  · decide +kernel
  · decide +kernel
  · decide +kernel
  · decide +kernel

end Demo

end Orchestration
