import Orchestration.Proofs.Policy.Unfolding

/-! # How often the agent under a stack is called

A call of a stack comes down to at most as many calls of the agent under it as the product of the
attempts that the layers allow, and to just as many if whatever is called fails recoverably and
nothing keeps the attempts from being made. -/

namespace Orchestration

open List

variable {ι ω : Kind}

namespace Agent

variable {input : Datum ι} {layers : List (Layer ι ω)}

/-! ## Coming to an end -/

/-- Every execution on this input comes to an end. -/
def Ends (W : Session → Session → Prop) (input : Datum ι) (a : Agent ι ω) : Prop :=
  ∀ c s, (a.execute input c).Until W none (fun _ => True) (fun _ _ => True) s

section Ends

variable {W : Session → Session → Prop} {a inner fallback : Agent ι ω}

theorem ends_of_start
    (h : ∀ c s, (a.start input c).Until W none (fun _ => True) (fun _ _ => True) s) :
    a.Ends W input := by
  refine fun c s => (h c s).andThen fun ending s' _ => ?_
  cases ending <;> exact .finish trivial

theorem ends_timingOut (limit : Duration) (h : inner.Ends W input) :
    (inner.timingOut limit).Ends W input := by
  refine ends_of_start fun c s => .of_poll_eq (inner.poll_timingOut limit input c s) ?_
  exact (Call.Until.within (h _ _).bounded (Nat.le_add_right _ _) fun _ _ _ _ => trivial).mono
    (fun _ _ => trivial) fun _ _ _ => trivial

theorem ends_orElse (h : inner.Ends W input) (h' : fallback.Ends W input) :
    (inner.orElse fallback).Ends W input := by
  refine ends_of_start fun c s => until_withCopy ((h c s).andThen fun ending s' _ => ?_) 0
  cases ending with
  | failure f =>
      by_cases hf : f.recoverable = true
      · simp only [if_pos hf]
        refine (h' c s').andThen fun ending s'' _ => ?_
        cases ending <;> exact .finish trivial
      · simp only [if_neg hf]
        exact .finish trivial
  | value | fault => exact .finish trivial

theorem ends_layer {layer : Layer ι ω} (h : inner.Ends W input)
    (h' : ∀ fallback : Agent ι ω, layer = .orElse fallback → fallback.Ends W input) :
    (layer.agent inner).Ends W input := by
  cases layer with
  | timingOut limit => exact ends_timingOut limit h
  | retrying p => exact ends_of_start fun c s => ends_attempts (h c) p.furtherAttempts 0 s
  | orElse fallback => exact ends_orElse h (h' fallback rfl)

/-- A stack comes to an end if the agent under it and the stand-ins do. -/
theorem ends_layered {base : Agent ι ω} (hbase : base.Ends W input)
    (hlayers : ∀ fallback : Agent ι ω, .orElse fallback ∈ layers → fallback.Ends W input) :
    (base.layered layers).Ends W input := by
  induction layers with
  | nil => exact hbase
  | cons layer layers ih =>
      refine ends_layer (ih fun fallback h => hlayers fallback (mem_cons_of_mem _ h)) ?_
      rintro fallback rfl
      exact hlayers fallback mem_cons_self

end Ends

/-- What a call of a stack comes down to: executions of the layers, and in the end calls of the agent
under them. -/
structure Accounted (base : Agent ι ω) (layers : List (Layer ι ω)) (input : Datum ι)
    (e : Episode ω) (levels : List (Parts ω)) (calls : List (Episode ω)) : Prop where
  executes : ∀ x ∈ calls, base.Executes input x
  /-- The calls are not more than the product of the attempts that the layers allow. -/
  bounded : calls.length ≤ budget layers
  /-- They are just as many if the call has ended, every layer can copy the input as often as it may
  have to, the agent and the stand-ins fail recoverably, no time limit is over, and no context is
  cancelled in which an attempt ends. -/
  attained : e.outcome ≠ none → (∀ layer ∈ layers, layer.HandsOn input) →
    Forall₂ Layer.Undisturbed layers levels → (∀ x ∈ calls, x.Fails) →
    calls.length = budget layers
  /-- That is the context of the call, unless a time limit outside has derived another one. -/
  context : ∀ i level, levels[i]? = some level →
    (∀ limit, Layer.timingOut limit ∉ layers.take (i + 1)) →
    ∀ x ∈ level.inner, x.context = e.context
  /-- A stand-in is called at most as often as the layers outside it allow, each time right after the
  agent that it stands in for has failed recoverably. -/
  standIns : ∀ i fallback level, layers[i]? = some (.orElse fallback) → levels[i]? = some level →
    level.standIns.length ≤ budget (layers.take i) ∧
    ∀ x ∈ level.standIns, fallback.Executes input x ∧
      ∃ y ∈ level.inner, (base.layered (layers.drop (i + 1))).Executes input y ∧ y.Fails ∧
        x.start = y.finish ∧ x.context = y.context
  /-- The counter of the agent counts the same calls. -/
  counted : ∀ serial, base.Counted serial →
    (∀ fallback : Agent ι ω, .orElse fallback ∈ layers → fallback.Omits serial) →
    e.madeIn serial = calls.length

theorem Unfolds.accounted {base : Agent ι ω} {e : Episode ω} {levels : List (Parts ω)}
    {calls : List (Episode ω)} (h : base.Unfolds input layers [e] levels calls) :
    base.Accounted layers input e levels calls where
  executes := h.executes
  bounded := by simpa using h.length_le
  attained hended hcopy hlayers hcalls := by
    simpa using (h.fails (forall_mem_singleton.mpr hended) hcopy hlayers hcalls).2
  context i level := h.context_eq (forall_mem_singleton.mpr rfl)
  standIns i fallback level hlayer hlevel := by simpa using h.standIns hlayer hlevel
  counted serial hbase hlayers := by simpa using h.madeIn_eq_length hbase hlayers

/-- However a call of a stack goes, it comes down to calls of the agent under the stack, and the call
ends if those and the calls of the stand-ins do. -/
theorem layered_budget (base : Agent ι ω) (layers : List (Layer ι ω)) (input : Datum ι) :
    (∀ e, (base.layered layers).Executes input e →
      ∃ levels calls, base.Unfolds input layers [e] levels calls) ∧
    (∀ e levels calls, base.Unfolds input layers [e] levels calls →
      base.Accounted layers input e levels calls) ∧
    ∀ W, base.Ends W input →
      (∀ fallback : Agent ι ω, .orElse fallback ∈ layers → fallback.Ends W input) →
      (base.layered layers).Ends W input :=
  ⟨fun _ h => exists_unfolds (forall_mem_singleton.mpr h), fun _ _ _ h => h.accounted,
    fun _ => ends_layered⟩

/-! ## A stack in which everything fails -/

/-- An agent whose calls all fail at once. -/
def failing (serial : Nat) (name : String) : Agent .text .text :=
  .ofFunction serial name fun _ _ => .failure (.ofAgent name "no")

/-- Two attempts within a time limit, each with a stand-in that fails too. -/
def twice : List (Layer .text .text) :=
  [.timingOut (.ofMillis 50), .retrying (.fixed 2 .zero), .orElse (failing 1 "second")]

/-- An execution that fails at once under a name. -/
def failed (c : Context) (s s' : Session) (name : String) : Episode .text :=
  ⟨c, s, [], some (.failure (.ofAgent name "no")), s'⟩

/-- The session after one more call of both agents. -/
def bothCalled (s : Session) : Session := (s.countCall 0).countCall 1

/-- The context of the attempts, and the sessions in which they start. -/
def twiceContext : Context := (Session.initial.derive flakyContext).1

def twiceFirst : Session := Session.initial.timed flakyContext (.ofMillis 50)

def twiceSecond : Session := ((bothCalled twiceFirst).setTimer 0).2

def twiceRun : Episode .text := failed flakyContext .initial (bothCalled twiceSecond) "first"

/-- What the run and the two attempts are made of. -/
def twiceTimed : Parts .text :=
  ⟨[failed twiceContext twiceFirst (bothCalled twiceSecond) "first"], []⟩

def twiceTried : Parts .text :=
  ⟨[failed twiceContext twiceFirst (bothCalled twiceFirst) "first",
    failed twiceContext twiceSecond (bothCalled twiceSecond) "first"], []⟩

def twiceCalled (s : Session) : Parts .text :=
  ⟨[failed twiceContext s (s.countCall 0) "first"],
    [failed twiceContext (s.countCall 0) (bothCalled s) "second"]⟩

def twiceLevels : List (Parts .text) :=
  [.join [twiceTimed], .join [twiceTried], .join [twiceCalled twiceFirst, twiceCalled twiceSecond]]

def twiceCalls : List (Episode .text) :=
  [failed twiceContext twiceFirst (twiceFirst.countCall 0) "first",
    failed twiceContext twiceSecond (twiceSecond.countCall 0) "first"]

theorem unfolds_twice :
    (failing 0 "first").Unfolds (.ofText "x") twice [twiceRun] twiceLevels twiceCalls := by
  have hcopy : ∀ fault, (Datum.ofText "x").copy 0 ≠ .error fault := nofun
  have hfirst (s : Session) : (failing 0 "first").Executes (.ofText "x")
      (failed twiceContext s (s.countCall 0) "first") := .once rfl
  have hsecond (s : Session) : (failing 1 "second").Executes (.ofText "x")
      (failed twiceContext s (s.countCall 1) "second") := .once rfl
  have hboth (s : Session) : (Layer.orElse (failing 1 "second")).Consists (failing 0 "first")
      (.ofText "x") (failed twiceContext s (bothCalled s) "first") (twiceCalled s) :=
    .standsIn hcopy (hfirst s) rfl (hsecond _)
  have hattempt (s : Session) :
      ((failing 0 "first").layered [.orElse (failing 1 "second")]).Executes (.ofText "x")
        (failed twiceContext s (bothCalled s) "first") :=
    Layer.executes_iff.mpr ⟨_, hboth s⟩
  have htried : (Layer.retrying (.fixed 2 .zero)).Consists
      ((failing 0 "first").layered [.orElse (failing 1 "second")]) (.ofText "x")
      (failed twiceContext twiceFirst (bothCalled twiceSecond) "first") twiceTried :=
    .retrying rfl (.again hcopy (hattempt twiceFirst) rfl rfl (.reached rfl)
      (.last nofun (hattempt twiceSecond) fun _ => .inl rfl))
  have htimed : (Layer.timingOut (.ofMillis 50)).Consists ((failing 0 "first").layered
      [.retrying (.fixed 2 .zero), .orElse (failing 1 "second")]) (.ofText "x") twiceRun
      twiceTimed :=
    .inTime nofun nofun (Layer.executes_iff.mpr ⟨_, htried⟩)
  refine Unfolds.layer (.cons htimed .nil) (Unfolds.layer (.cons htried .nil)
    (Unfolds.layer (.cons (hboth twiceFirst) (.cons (hboth twiceSecond) .nil)) (.base ?_)))
  exact forall_mem_cons.mpr ⟨hfirst twiceFirst, forall_mem_singleton.mpr (hfirst twiceSecond)⟩

theorem layered_budget_twice : twiceCalls.length = budget twice ∧
    twiceRun.madeIn 0 = twiceCalls.length ∧
    (twiceCalled twiceFirst).standIns.length + (twiceCalled twiceSecond).standIns.length ≤
      budget (twice.take 2) ∧
    ((failing 0 "first").layered twice).Ends (fun _ _ => True) (.ofText "x") := by
  obtain ⟨-, hruns, hends⟩ := layered_budget (failing 0 "first") twice (.ofText "x")
  have hrun := hruns twiceRun _ _ unfolds_twice
  have hlayers : Forall₂ Layer.Undisturbed twice twiceLevels := by
    refine .cons ?_ (.cons ?_ (.cons ?_ .nil))
    · exact forall_mem_singleton.mpr nofun
    · exact forall_mem_cons.mpr ⟨rfl, forall_mem_singleton.mpr rfl⟩
    · exact forall_mem_cons.mpr ⟨⟨_, rfl, rfl⟩, forall_mem_singleton.mpr ⟨_, rfl, rfl⟩⟩
  have hfails : ∀ x ∈ twiceCalls, x.Fails :=
    forall_mem_cons.mpr ⟨⟨_, rfl, rfl⟩, forall_mem_singleton.mpr ⟨_, rfl, rfl⟩⟩
  have hcounts (serial : Nat) (name : String) : (failing serial name).Counted serial :=
    counted_ofFunction serial name _
  have homits : ∀ fallback : Agent .text .text, .orElse fallback ∈ twice → fallback.Omits 0 := by
    intro fallback h
    obtain rfl : fallback = failing 1 "second" := by simpa [twice] using h
    exact (hcounts 1 "second").omits (by decide)
  refine ⟨hrun.attained nofun (fun _ _ _ _ _ => nofun) hlayers hfails,
    hrun.counted 0 (hcounts 0 "first") homits, (hrun.standIns 2 _ _ rfl rfl).1,
    hends _ (fun _ _ => .ended rfl trivial) ?_⟩
  intro fallback h
  obtain rfl : fallback = failing 1 "second" := by simpa [twice] using h
  exact fun _ _ => .ended rfl trivial

/-- An agent that fails at once, after cancelling its context if it is to. -/
def failingAfter (ι : Kind) (cancel : Bool) : Agent ι .text :=
  .scripted 0 "first" "first" .shared
    ⟨none, false, none, none, false, cancel, .fail "" none "no"⟩ []

/-- An input that cannot be copied keeps an agent from being called at all, and an agent that
cancels the context of its time limit is not tried again, though the context of the call is not
cancelled and the time is not over. -/
theorem called_less_than_allowed :
    (budget [(Layer.retrying (.fixed 2 .zero) : Layer .brittle .text)] = 2 ∧
      Timeline.together 100 [(((failingAfter .brittle false).layered
          [.retrying (.fixed 2 .zero)]).execute ⟨.brittle "b", rfl⟩, none)] .initial =
        ([⟨some (.failure (.ofAgent "first" "panicked: brittle input cannot be cloned")), 0,
          false⟩], ⟨0, 0, ⟨1, 1, []⟩, [], [], [], []⟩)) ∧
    budget [(Layer.timingOut (.ofMillis 50) : Layer .text .text), .retrying (.fixed 3 .zero)] = 3 ∧
      Timeline.together 100 [(((failingAfter .text true).layered
          [.timingOut (.ofMillis 50), .retrying (.fixed 3 .zero)]).execute (.ofText "x"), none)]
          .initial =
        ([⟨some (.failure (.ofAgent "first" "no")), 0, false⟩],
          ⟨0, 1, ⟨2, 1, [1]⟩, [(0, 1)], [⟨0, "first", 0, .failed⟩,
            ⟨0, "first", 0, .started (.text "x")⟩], [], []⟩) := by
  refine ⟨⟨rfl, ?_⟩, rfl, ?_⟩ <;> cbv

end Agent

end Orchestration
