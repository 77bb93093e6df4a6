import Orchestration.Proofs.Policy.Layers

/-! # What executions of a stack are made of

From layer to layer, executions of a stack come down to executions of what is under the layer and of
its stand-ins, until only calls of the agent under the stack are left. Further attempts multiply on
the way, and nothing else does. -/

namespace Orchestration

open List

variable {ι ω : Kind}

section Consists

variable {a inner : Agent ι ω} {backoff : Backoff} {input : Datum ι} {c : Context} {s s' : Session}
  {gaps : List Gap} {outcome : Option (Ending (Datum ω))} {left failures : Nat} {e : Episode ω}
  {layer : Layer ι ω} {parts : Parts ω} {tries : List (Episode ω)}

/-! ## One layer -/

namespace Layer

/-- The layer needs no copies of the input, or gets as many as it may make. -/
def HandsOn (input : Datum ι) (layer : Layer ι ω) : Prop :=
  layer.copies = true → ∀ earlier < layer.most, ∀ fault, input.copy earlier ≠ .error fault

/-- Nothing keeps the layer from calling what is under it as often as it may: no context in which an
attempt ended is cancelled, no time limit finds work waiting, and stand-ins fail. -/
def Undisturbed : Layer ι ω → Parts ω → Prop
  | retrying _, parts => ∀ x ∈ parts.inner, x.finish.isCancelled x.context = false
  | timingOut _, parts => ∀ x ∈ parts.inner, x.outcome ≠ none
  | orElse _, parts => ∀ x ∈ parts.standIns, x.Fails

namespace Consists

theorem executes (h : layer.Consists inner input e parts) :
    ∀ x ∈ parts.inner, inner.Executes input x := by
  cases h with
  | uncopied => nofun
  | retrying _ htries => exact htries.executes
  | inTime _ _ h | alone _ h | standsIn _ h => simpa using h
  | expired _ _ h => simpa [Agent.Executes] using ⟨_, h⟩

/-- Only a time limit hands out another context than the one that it was given. -/
theorem context_eq (h : layer.Consists inner input e parts)
    (hlayer : ∀ limit, layer ≠ .timingOut limit) : ∀ x ∈ parts.inner, x.context = e.context := by
  cases h with
  | uncopied => nofun
  | retrying _ htries => exact htries.context_eq
  | @inTime limit | @expired limit => exact absurd rfl (hlayer limit)
  | alone | standsIn => simp

theorem length_inner_le (h : layer.Consists inner input e parts) :
    parts.inner.length ≤ layer.most := by
  cases h with
  | uncopied => exact Nat.zero_le _
  | retrying _ htries => exact htries.length_le.trans_eq (RetryPolicy.succ_furtherAttempts _)
  | inTime | expired | alone | standsIn => exact Nat.le_refl 1

theorem length_standIns_le (h : layer.Consists inner input e parts) :
    parts.standIns.length ≤ 1 := by
  cases h <;> simp

/-- A stand-in is called where an execution of the primary agent failed recoverably. -/
theorem standIns (h : layer.Consists inner input e parts) : ∀ x ∈ parts.standIns,
    ∃ fallback, layer = .orElse fallback ∧ fallback.Executes input x ∧
      ∃ y ∈ parts.inner, y.Fails ∧ x.start = y.finish ∧ x.context = y.context := by
  cases h with
  | uncopied | retrying | inTime | expired | alone => nofun
  | standsIn _ _ hf h' =>
      intro x hx
      obtain rfl := mem_singleton.mp hx
      exact ⟨_, rfl, h', _, mem_singleton_self _, ⟨_, rfl, hf⟩, rfl, rfl⟩

theorem ended (h : layer.Consists inner input e parts) (he : e.outcome ≠ none)
    (hlayer : layer.Undisturbed parts) : ∀ x ∈ parts.inner, x.outcome ≠ none := by
  cases h with
  | uncopied => nofun
  | retrying houtcome htries =>
      exact htries.ended (by rintro rfl; exact he houtcome)
  | inTime | expired => exact hlayer
  | alone => simpa using he
  | standsIn => simp

/-- An undisturbed execution fails recoverably if all that it is made of does. -/
theorem fails (h : layer.Consists inner input e parts) (he : e.outcome ≠ none)
    (hcopy : layer.HandsOn input) (hlayer : layer.Undisturbed parts)
    (hfails : ∀ x ∈ parts.inner, x.Fails) : e.Fails ∧ parts.inner.length = layer.most := by
  cases h with
  | uncopied hcopy' => exact absurd hcopy' (hcopy rfl 0 Nat.one_pos _)
  | @retrying p _ outcome tries houtcome htries =>
      have hfault : ∀ fault, outcome ≠ some (.fault fault) := by
        rintro fault rfl
        obtain ⟨hcopy', hlength, -⟩ := htries.spoilt
        have hmost : p.furtherAttempts + 1 = (Layer.retrying p : Layer ι ω).most :=
          p.succ_furtherAttempts
        exact hcopy rfl _ (by omega) fault hcopy'
      rw [Ending.map_captured inner.name hfault] at houtcome
      subst houtcome
      obtain ⟨hends, hlength⟩ := htries.length_eq he hfault hfails hlayer
      exact ⟨hends, hlength.trans (RetryPolicy.succ_furtherAttempts _)⟩
  | inTime | alone =>
      have hends := hfails _ (mem_singleton_self _)
      exact ⟨hends, rfl⟩
  | expired => exact absurd rfl (hlayer _ (mem_singleton_self _))
  | standsIn _ _ hf =>
      obtain ⟨g, hg, -⟩ := hlayer _ (mem_singleton_self _)
      cases hg
      exact ⟨⟨_, rfl, hf⟩, rfl⟩

theorem madeIn_eq (h : layer.Consists inner input e parts) (agent : Nat) :
    e.madeIn agent = (parts.inner.map (·.madeIn agent)).sum +
      (parts.standIns.map (·.madeIn agent)).sum := by
  cases h with
  | uncopied _ hgaps _ hfinish =>
      simp only [Episode.madeIn, hgaps, hfinish, map_nil, sum_nil, add_zero]
      exact Call.madeIn_nil_of_calls_eq rfl agent
  | retrying _ htries => exact (htries.madeIn_eq agent).trans (add_zero _).symm
  | inTime =>
      simp only [map_cons, map_nil, sum_cons, sum_nil, add_zero]
      exact Call.madeIn_congr rfl rfl agent
  | expired _ _ _ _ hfinish =>
      simp only [map_cons, map_nil, sum_cons, sum_nil, add_zero]
      refine Call.madeIn_congr rfl ?_ agent
      rw [hfinish, Session.cancel_calls, Call.drop_calls]
  | alone => simp
  | standsIn =>
      simp only [map_cons, map_nil, sum_cons, sum_nil, add_zero]
      exact Call.madeIn_append _ _ _ _ _ agent

end Consists

end Layer

end Consists

/-! ## All layers -/

/-- The parts of several executions of a layer, one after the other. -/
def Parts.join (rows : List (Parts ω)) : Parts ω :=
  ⟨rows.flatMap (·.inner), rows.flatMap (·.standIns)⟩

/-- From executions of a stack down to those of the agent under it: for each layer what all
executions of it are made of, and in the end the calls of the agent. -/
inductive Agent.Unfolds (base : Agent ι ω) (input : Datum ι) :
    List (Layer ι ω) → List (Episode ω) → List (Parts ω) → List (Episode ω) → Prop where
  | base {calls : List (Episode ω)} (h : ∀ x ∈ calls, base.Executes input x) :
      Unfolds base input [] calls [] calls
  | layer {layer : Layer ι ω} {layers : List (Layer ι ω)} {executions calls : List (Episode ω)}
      {rows levels : List (Parts ω)}
      (h : Forall₂ (layer.Consists (base.layered layers) input) executions rows)
      (hrest : Unfolds base input layers (Parts.join rows).inner levels calls) :
      Unfolds base input (layer :: layers) executions (Parts.join rows :: levels) calls

section Rows

variable {inner : Agent ι ω} {input : Datum ι} {layer : Layer ι ω} {executions : List (Episode ω)}
  {rows : List (Parts ω)}

theorem Layer.exists_rows (h : ∀ e ∈ executions, (layer.agent inner).Executes input e) :
    ∃ rows, Forall₂ (layer.Consists inner input) executions rows := by
  induction executions with
  | nil => exact ⟨[], .nil⟩
  | cons e executions ih =>
      obtain ⟨he, hexecutions⟩ := forall_mem_cons.mp h
      obtain ⟨parts, hparts⟩ := Layer.executes_iff.mp he
      obtain ⟨rows, hrows⟩ := ih hexecutions
      exact ⟨parts :: rows, .cons hparts hrows⟩

variable (h : Forall₂ (layer.Consists inner input) executions rows)

include h

theorem Layer.exists_consists {parts : Parts ω} (hparts : parts ∈ rows) :
    ∃ e ∈ executions, layer.Consists inner input e parts := by
  induction h with
  | nil => cases hparts
  | cons hfirst _ ih =>
      obtain rfl | hparts := mem_cons.mp hparts
      · exact ⟨_, mem_cons_self, hfirst⟩
      · obtain ⟨e, he, hconsists⟩ := ih hparts
        exact ⟨e, mem_cons_of_mem _ he, hconsists⟩

theorem Parts.executes_join : ∀ x ∈ (Parts.join rows).inner, inner.Executes input x := by
  intro x hx
  obtain ⟨parts, hparts, hx⟩ := mem_flatMap.mp hx
  obtain ⟨e, -, hconsists⟩ := Layer.exists_consists h hparts
  exact hconsists.executes x hx

theorem Parts.context_join (hlayer : ∀ limit, layer ≠ .timingOut limit) {c : Context}
    (hcontext : ∀ e ∈ executions, e.context = c) :
    ∀ x ∈ (Parts.join rows).inner, x.context = c := by
  intro x hx
  obtain ⟨parts, hparts, hx⟩ := mem_flatMap.mp hx
  obtain ⟨e, he, hconsists⟩ := Layer.exists_consists h hparts
  exact (hconsists.context_eq hlayer x hx).trans (hcontext e he)

theorem Parts.standIns_join : ∀ x ∈ (Parts.join rows).standIns,
    ∃ fallback, layer = .orElse fallback ∧ fallback.Executes input x ∧
      ∃ y ∈ (Parts.join rows).inner, y.Fails ∧ x.start = y.finish ∧ x.context = y.context := by
  intro x hx
  obtain ⟨parts, hparts, hx⟩ := mem_flatMap.mp hx
  obtain ⟨e, -, hconsists⟩ := Layer.exists_consists h hparts
  obtain ⟨fallback, hlayer, hexecutes, y, hy, hprimary⟩ := hconsists.standIns x hx
  exact ⟨fallback, hlayer, hexecutes, y, mem_flatMap.mpr ⟨parts, hparts, hy⟩, hprimary⟩

theorem Parts.length_inner_join_le :
    (Parts.join rows).inner.length ≤ executions.length * layer.most := by
  induction h with
  | nil => simp [join]
  | cons hparts _ ih =>
      have hlength := hparts.length_inner_le
      simp only [join, flatMap_cons, length_append, length_cons, Nat.succ_mul] at ih ⊢
      omega

theorem Parts.length_standIns_join_le :
    (Parts.join rows).standIns.length ≤ executions.length := by
  induction h with
  | nil => simp [join]
  | cons hparts _ ih =>
      have hlength := hparts.length_standIns_le
      simp only [join, flatMap_cons, length_append, length_cons] at ih ⊢
      omega

theorem Parts.madeIn_join (agent : Nat) : (executions.map (·.madeIn agent)).sum =
    ((Parts.join rows).inner.map (·.madeIn agent)).sum +
      ((Parts.join rows).standIns.map (·.madeIn agent)).sum := by
  induction h with
  | nil => simp [join]
  | cons hparts _ ih =>
      simp only [join, flatMap_cons, map_append, sum_append, map_cons, sum_cons] at ih ⊢
      rw [hparts.madeIn_eq agent, ih]
      ring

omit h in
theorem Layer.Undisturbed.of_mem {parts : Parts ω} (hlayer : layer.Undisturbed (Parts.join rows))
    (hparts : parts ∈ rows) : layer.Undisturbed parts := by
  cases layer <;> exact fun x hx => hlayer x (mem_flatMap.mpr ⟨parts, hparts, hx⟩)

theorem Parts.ended_join (hended : ∀ e ∈ executions, e.outcome ≠ none)
    (hlayer : layer.Undisturbed (Parts.join rows)) :
    ∀ x ∈ (Parts.join rows).inner, x.outcome ≠ none := by
  intro x hx
  obtain ⟨parts, hparts, hx⟩ := mem_flatMap.mp hx
  obtain ⟨e, he, hconsists⟩ := Layer.exists_consists h hparts
  exact hconsists.ended (hended e he) (hlayer.of_mem hparts) x hx

theorem Parts.fails_join (hended : ∀ e ∈ executions, e.outcome ≠ none)
    (hcopy : layer.HandsOn input) (hlayer : layer.Undisturbed (Parts.join rows))
    (hfails : ∀ x ∈ (Parts.join rows).inner, x.Fails) : (∀ e ∈ executions, e.Fails) ∧
      (Parts.join rows).inner.length = executions.length * layer.most := by
  have hlayers : ∀ parts ∈ rows, layer.Undisturbed parts := fun _ => hlayer.of_mem
  have hinner : ∀ parts ∈ rows, ∀ x ∈ parts.inner, x.Fails :=
    fun parts hparts x hx => hfails x (mem_flatMap.mpr ⟨parts, hparts, hx⟩)
  clear hlayer hfails
  induction h with
  | nil => simp [join]
  | cons hparts _ ih =>
      obtain ⟨he, hended⟩ := forall_mem_cons.mp hended
      obtain ⟨hfirst, hlayers⟩ := forall_mem_cons.mp hlayers
      obtain ⟨hfails, hinner⟩ := forall_mem_cons.mp hinner
      obtain ⟨hends, hlength⟩ := hparts.fails he hcopy hfirst hfails
      obtain ⟨hrest, hlengths⟩ := ih hended hlayers hinner
      refine ⟨forall_mem_cons.mpr ⟨hends, hrest⟩, ?_⟩
      simp only [join, flatMap_cons, length_append, length_cons, Nat.succ_mul] at hlengths ⊢
      omega

end Rows

namespace Agent

variable {base : Agent ι ω} {input : Datum ι} {layers : List (Layer ι ω)}
  {executions calls : List (Episode ω)} {levels : List (Parts ω)}

theorem exists_unfolds (h : ∀ e ∈ executions, (base.layered layers).Executes input e) :
    ∃ levels calls, base.Unfolds input layers executions levels calls := by
  induction layers generalizing executions with
  | nil => exact ⟨[], executions, .base h⟩
  | cons layer layers ih =>
      obtain ⟨rows, hrows⟩ := Layer.exists_rows h
      obtain ⟨levels, calls, hrest⟩ := ih (Parts.executes_join hrows)
      exact ⟨_, calls, .layer hrows hrest⟩

namespace Unfolds

theorem executes (h : base.Unfolds input layers executions levels calls) :
    ∀ x ∈ calls, base.Executes input x := by
  induction h with
  | base h => exact h
  | layer _ _ ih => exact ih

/-- Down to the first time limit, all executions are under the same context. -/
theorem context_eq (h : base.Unfolds input layers executions levels calls) {c : Context}
    (hcontext : ∀ e ∈ executions, e.context = c) {i : Nat} {level : Parts ω}
    (hlevel : levels[i]? = some level)
    (hlayers : ∀ limit, Layer.timingOut limit ∉ layers.take (i + 1)) :
    ∀ x ∈ level.inner, x.context = c := by
  induction h generalizing i with
  | base => cases hlevel
  | layer hrows _ ih =>
      rw [take_succ_cons] at hlayers
      have hfirst := Parts.context_join hrows
        (fun limit h => hlayers limit (h ▸ mem_cons_self)) hcontext
      cases i with
      | zero =>
          cases hlevel
          exact hfirst
      | succ i => exact ih hfirst hlevel fun limit h => hlayers limit (mem_cons_of_mem _ h)

theorem length_le (h : base.Unfolds input layers executions levels calls) :
    calls.length ≤ executions.length * budget layers := by
  induction h with
  | base => simp [budget]
  | @layer layer layers executions calls rows levels hrows _ ih =>
      calc calls.length ≤ (Parts.join rows).inner.length * budget layers := ih
        _ ≤ executions.length * layer.most * budget layers :=
          Nat.mul_le_mul_right _ (Parts.length_inner_join_le hrows)
        _ = executions.length * budget (layer :: layers) := by
          rw [Nat.mul_assoc, budget, budget, map_cons, prod_cons]

/-- Stand-ins are called at most as often as their layer is executed, each right after the primary
agent has failed recoverably. -/
theorem standIns (h : base.Unfolds input layers executions levels calls) {i : Nat}
    {fallback : Agent ι ω} {level : Parts ω} (hlayer : layers[i]? = some (.orElse fallback))
    (hlevel : levels[i]? = some level) :
    level.standIns.length ≤ executions.length * budget (layers.take i) ∧
      ∀ x ∈ level.standIns, fallback.Executes input x ∧
        ∃ y ∈ level.inner, (base.layered (layers.drop (i + 1))).Executes input y ∧ y.Fails ∧
          x.start = y.finish ∧ x.context = y.context := by
  induction h generalizing i with
  | base => cases hlevel
  | @layer layer layers executions calls rows levels hrows _ ih =>
      cases i with
      | zero =>
          cases hlayer
          cases hlevel
          refine ⟨by simpa [budget] using Parts.length_standIns_join_le hrows, fun x hx => ?_⟩
          obtain ⟨_, ⟨⟩, hexecutes, y, hy, hprimary⟩ := Parts.standIns_join hrows x hx
          exact ⟨hexecutes, y, hy, Parts.executes_join hrows y hy, hprimary⟩
      | succ i =>
          obtain ⟨hlength, hcalled⟩ := ih hlayer hlevel
          refine ⟨?_, hcalled⟩
          calc level.standIns.length
            _ ≤ (Parts.join rows).inner.length * budget (layers.take i) := hlength
            _ ≤ executions.length * layer.most * budget (layers.take i) :=
              Nat.mul_le_mul_right _ (Parts.length_inner_join_le hrows)
            _ = executions.length * budget ((layer :: layers).take (i + 1)) := by
              rw [Nat.mul_assoc, take_succ_cons, budget, budget, map_cons, prod_cons]

/-- If all executions end, the calls of the agent fail recoverably, and nothing disturbs the layers,
every execution fails recoverably, and the agent is called as often as it may be. -/
theorem fails (h : base.Unfolds input layers executions levels calls)
    (hended : ∀ e ∈ executions, e.outcome ≠ none) (hcopy : ∀ layer ∈ layers, layer.HandsOn input)
    (hlayers : Forall₂ Layer.Undisturbed layers levels) (hcalls : ∀ x ∈ calls, x.Fails) :
    (∀ e ∈ executions, e.Fails) ∧ calls.length = executions.length * budget layers := by
  induction h with
  | base => exact ⟨hcalls, by simp [budget]⟩
  | @layer layer layers executions calls rows levels hrows _ ih =>
      obtain ⟨hcopy, hcopies⟩ := forall_mem_cons.mp hcopy
      obtain ⟨hlayer, hlayers⟩ := forall₂_cons.mp hlayers
      have hinner := Parts.ended_join hrows hended hlayer
      obtain ⟨hfails, hlength⟩ := ih hinner hcopies hlayers hcalls
      obtain ⟨hexecutions, hrow⟩ := Parts.fails_join hrows hended hcopy hlayer hfails
      refine ⟨hexecutions, ?_⟩
      rw [hlength, hrow, Nat.mul_assoc, budget, budget, map_cons, prod_cons]

/-- Whatever is counted is counted in calls of the agent or of stand-ins. -/
theorem madeIn_eq (h : base.Unfolds input layers executions levels calls) (agent : Nat) :
    (executions.map (·.madeIn agent)).sum = (calls.map (·.madeIn agent)).sum +
      ((levels.flatMap (·.standIns)).map (·.madeIn agent)).sum := by
  induction h with
  | base => simp
  | layer hrows _ ih =>
      rw [Parts.madeIn_join hrows agent, ih, flatMap_cons, map_append, sum_append]
      ring

/-- Stand-ins that count no calls of some agent do not do so here. -/
theorem omits (h : base.Unfolds input layers executions levels calls) {serial : Nat}
    (hlayers : ∀ fallback : Agent ι ω, .orElse fallback ∈ layers → fallback.Omits serial) :
    ∀ x ∈ levels.flatMap (·.standIns), x.madeIn serial = 0 := by
  induction h with
  | base => nofun
  | layer hrows _ ih =>
      simp only [flatMap_cons, mem_append]
      rintro x (hx | hx)
      · obtain ⟨fallback, rfl, hexecutes, -⟩ := Parts.standIns_join hrows x hx
        exact hlayers fallback mem_cons_self input x hexecutes
      · exact ih (fun fallback h => hlayers fallback (mem_cons_of_mem _ h)) x hx

/-- So a counter of the agent under the stack counts its calls. -/
theorem madeIn_eq_length (h : base.Unfolds input layers executions levels calls) {serial : Nat}
    (hbase : base.Counted serial)
    (hlayers : ∀ fallback : Agent ι ω, .orElse fallback ∈ layers → fallback.Omits serial) :
    (executions.map (·.madeIn serial)).sum = calls.length := by
  have hcalls : calls.map (·.madeIn serial) = replicate calls.length 1 :=
    eq_replicate_iff.mpr ⟨length_map _, forall_mem_map.mpr fun x hx =>
      (hbase.madeIn_executes (h.executes x hx) serial).trans (if_pos rfl)⟩
  have hstandIns : ((levels.flatMap (·.standIns)).map (·.madeIn serial)).sum = 0 :=
    sum_eq_zero (forall_mem_map.mpr (h.omits hlayers))
  rw [h.madeIn_eq serial, hcalls, hstandIns]
  simp

end Unfolds

end Agent

end Orchestration
