import Orchestration.Proofs.Text.Reading
import Orchestration.Toml.Document
import Orchestration.Toml.Printer

/-!
# Integers that have been read can be written

No integer of a document is larger than the largest one that can be written, however deep in arrays
and tables it stands.
-/

namespace Orchestration

namespace Text.Reader

variable {α β : Type}

/-- Whatever the reader reads has a property. -/
def Yields (r : Reader α) (P : α → Prop) : Prop := ∀ cs a rest, r cs = some (a, rest) → P a

variable {r : Reader α} {P : α → Prop} {Q : β → Prop}

theorem yields_true (r : Reader α) : Yields r fun _ => True := fun _ _ _ _ => trivial

theorem yields_pure {a : α} (h : P a) : Yields (pure a) P := by
  intro cs b rest hb
  obtain ⟨rfl, -⟩ := Prod.mk.inj (Option.some.inj hb)
  exact h

theorem yields_failure : Yields (failure : Reader α) P := fun _ _ _ h => nomatch h

theorem Yields.bind {f : α → Reader β} (h : Yields r P) (hf : ∀ a, P a → Yields (f a) Q) :
    Yields (r >>= f) Q := by
  intro cs b rest hb
  obtain ⟨⟨a, tail⟩, ha, hb⟩ := Option.bind_eq_some_iff.1 ((bind_apply r f cs).symm.trans hb)
  exact hf a (h cs a tail ha) tail b rest hb

/-- What is read first does not matter. -/
theorem yields_bind {r : Reader α} {f : α → Reader β} (hf : ∀ a, Yields (f a) Q) :
    Yields (r >>= f) Q :=
  (yields_true r).bind fun a _ => hf a

theorem Yields.map {f : α → β} (h : Yields r P) (hf : ∀ a, P a → Q (f a)) : Yields (f <$> r) Q := by
  intro cs b rest hb
  rw [map_apply] at hb
  obtain ⟨⟨a, tail⟩, ha, heq⟩ := Option.map_eq_some_iff.1 hb
  obtain ⟨rfl, -⟩ := Prod.mk.inj heq
  exact hf a (h cs a tail ha)

theorem Yields.orElse {s : Reader α} (h : Yields r P) (hs : Yields s P) : Yields (r <|> s) P := by
  intro cs a rest ha
  rw [orElse_apply] at ha
  rcases Option.or_eq_some_iff.1 ha with ha | ⟨-, ha⟩
  · exact h cs a rest ha
  · exact hs cs a rest ha

theorem Yields.optional (h : Yields r P) : Yields (optional r) fun a => ∀ b ∈ a, P b := by
  intro cs a rest ha b hb
  rw [optional_apply] at ha
  cases hr : r cs with
  | none =>
    rw [hr] at ha
    obtain ⟨rfl, -⟩ := Prod.mk.inj (Option.some.inj ha)
    cases hb
  | some p =>
    rw [hr] at ha
    obtain ⟨rfl, -⟩ := Prod.mk.inj (Option.some.inj ha)
    obtain rfl := Option.some.inj hb
    exact h cs _ _ hr

theorem Yields.many (h : Yields r P) : Yields (many r) fun as => ∀ a ∈ as, P a := by
  intro cs as rest has
  obtain ⟨rfl, -⟩ := Prod.mk.inj (Option.some.inj has)
  clear has
  induction cs using repeated.induct r with
  | case1 cs hnone =>
    rw [repeated_of_none hnone]
    exact List.forall_mem_nil _
  | case2 cs a tail hsome hlt _ _ _ ih =>
    rw [repeated_of_some hsome hlt]
    exact List.forall_mem_cons.2 ⟨h cs a tail hsome, ih⟩
  | case3 cs a tail hsome hge =>
    rw [repeated, hsome]
    dsimp only
    rw [if_neg hge]
    exact List.forall_mem_nil _

theorem Yields.whole (h : Yields r P) {cs : List Char} {a : α} (ha : whole r cs = some a) : P a := by
  unfold Reader.whole at ha
  split at ha
  · rename_i hr
    exact Option.some.inj ha ▸ h cs _ _ hr
  · cases ha

theorem Yields.separated (h : Yields r P) (s : Reader Unit) :
    Yields (separated r s) fun as => ∀ a ∈ as, P a :=
  h.bind fun _ ha => (yields_bind fun _ => h).many.bind fun _ has =>
    yields_pure (List.forall_mem_cons.2 ⟨ha, has⟩)

end Text.Reader

namespace Toml

open Text Text.Reader

/-! ## Values -/

/-- No integer in a value is too large to be written. -/
inductive Value.Bounded : Value → Prop
  | text (s : String) : Bounded (.text s)
  | integer {n : Int} (h : n ≤ maxInteger) : Bounded (.integer n)
  | float (x : Binary64) : Bounded (.float x)
  | boolean (b : Bool) : Bounded (.boolean b)
  | moment : Bounded .moment
  | array {items : List Value} (h : ∀ v ∈ items, Bounded v) : Bounded (.array items)
  | tables {elements : List (List (String × Value))} (h : ∀ es ∈ elements, ∀ e ∈ es, Bounded e.2) :
      Bounded (.tables elements)
  | table (origin : Origin) {entries : List (String × Value)} (h : ∀ e ∈ entries, Bounded e.2) :
      Bounded (.table origin entries)

/-- No integer in a table is too large to be written. -/
def Table.Bounded (t : Table) : Prop := ∀ e ∈ t.entries, e.2.Bounded

theorem yields_inRange (n : Int) : Yields (inRange n) fun n => n ≤ maxInteger := by
  unfold inRange
  split
  · rename_i h
    exact yields_pure h.2
  · exact yields_failure

theorem yields_integer : Yields integer fun n => n ≤ maxInteger := by
  have based (mark : String) (base : Nat) (isDigit : Char → Bool) :
      Yields (basedInteger mark base isDigit) fun n => n ≤ maxInteger :=
    yields_bind fun _ => yields_bind fun _ => yields_inRange _
  have decimal : Yields decimalInteger fun n => n ≤ maxInteger :=
    yields_bind fun _ => yields_bind fun _ => yields_inRange _
  exact (based _ _ _).orElse ((based _ _ _).orElse ((based _ _ _).orElse decimal))

theorem yields_scalar : Yields scalar Value.Bounded :=
  ((yields_true _).map fun s _ => .text s).orElse <|
    (yields_bind fun _ => yields_pure .moment).orElse <|
      ((yields_true _).map fun x _ => .float x).orElse <|
        (yields_integer.map fun _ h => .integer h).orElse <|
          (yields_bind fun _ => yields_pure (.boolean true)).orElse <|
            yields_bind fun _ => yields_pure (.boolean false)

/-! ## Tables -/

theorem Table.Bounded.get? {t : Table} (h : t.Bounded) {key : String} {v : Value}
    (hv : t.get? key = some v) : v.Bounded := by
  obtain ⟨l₁, l₂, hentries, -⟩ := List.lookup_eq_some_iff.1 hv
  exact h (key, v) (by rw [hentries]; simp)

theorem mem_set {key : String} {v : Value} {entries : Entries String Value} {e : String × Value}
    (he : e ∈ entries.set key v) : e = (key, v) ∨ e ∈ entries := by
  induction entries with
  | nil => exact .inl (List.mem_singleton.1 he)
  | cons d entries ih =>
    rw [Entries.set] at he
    split at he
    · exact (List.mem_cons.1 he).imp id (List.mem_cons_of_mem _)
    · rcases List.mem_cons.1 he with rfl | he
      · exact .inr List.mem_cons_self
      · exact (ih he).imp id (List.mem_cons_of_mem _)

theorem Table.Bounded.set {t : Table} (h : t.Bounded) {key : String} {v : Value} (hv : v.Bounded) :
    (t.set key v).Bounded := by
  intro e he
  rcases mem_set he with rfl | he
  · exact hv
  · exact h e he

theorem Table.Bounded.update? {dotted : Bool} {change : Table → Option Table}
    (hchange : ∀ t t', t.Bounded → change t = some t' → t'.Bounded) {path : List String}
    {t t' : Table} (h : t.Bounded) (ht : t.update? dotted change path = some t') : t'.Bounded := by
  induction path generalizing t t' with
  | nil => exact hchange t t' h ht
  | cons key path ih =>
    rw [Table.update?] at ht
    split at ht
    · obtain ⟨below, hbelow, heq⟩ := Option.bind_eq_some_iff.1 ht
      obtain rfl := Option.some.inj heq
      exact h.set (.table _ (ih (t := ⟨_, []⟩) (List.forall_mem_nil _) hbelow))
    · rename_i origin entries hget
      split at ht
      · cases ht
      · obtain ⟨below, hbelow, heq⟩ := Option.bind_eq_some_iff.1 ht
        obtain rfl := Option.some.inj heq
        cases h.get? hget with
        | table _ hentries => exact h.set (.table _ (ih (t := ⟨origin, entries⟩) hentries hbelow))
    · rename_i elements hget
      split at ht
      · cases ht
      · rename_i last hlast
        obtain ⟨below, hbelow, heq⟩ := Option.bind_eq_some_iff.1 ht
        obtain rfl := Option.some.inj heq
        cases h.get? hget with
        | tables helements =>
          have hbelow' : below.Bounded :=
            ih (t := ⟨.header, last⟩) (helements last (List.mem_of_getLast? hlast)) hbelow
          refine h.set (.tables fun es hes => ?_)
          rcases List.mem_append.1 hes with hes | hes
          · exact helements es ((List.dropLast_sublist _).subset hes)
          · exact List.mem_singleton.1 hes ▸ hbelow'
    · cases ht

theorem Table.Bounded.assign? {t t' : Table} (h : t.Bounded) {path : List String} {key : String}
    {v : Value} (hv : v.Bounded) (ht : t.assign? path key v = some t') : t'.Bounded := by
  refine h.update? (fun t t' h ht => ?_) ht
  split at ht
  · cases ht
  · rw [Table.add?] at ht
    split at ht
    · cases ht
    · obtain rfl := Option.some.inj ht
      exact h.set hv

theorem Table.Bounded.openTable? {t t' : Table} (h : t.Bounded) {path : List String} {key : String}
    (ht : t.openTable? path key = some t') : t'.Bounded := by
  refine h.update? (fun t t' h ht => ?_) ht
  split at ht
  · obtain rfl := Option.some.inj ht
    exact h.set (.table _ (List.forall_mem_nil _))
  · rename_i hget
    obtain rfl := Option.some.inj ht
    cases h.get? hget with
    | table _ hentries => exact h.set (.table _ hentries)
  · cases ht

theorem Table.Bounded.openElement? {t t' : Table} (h : t.Bounded) {path : List String}
    {key : String} (ht : t.openElement? path key = some t') : t'.Bounded := by
  refine h.update? (fun t t' h ht => ?_) ht
  split at ht
  · obtain rfl := Option.some.inj ht
    exact h.set (.tables (by simp))
  · rename_i hget
    obtain rfl := Option.some.inj ht
    cases h.get? hget with
    | tables helements =>
      refine h.set (.tables fun es hes => ?_)
      rcases List.mem_append.1 hes with hes | hes
      · exact helements es hes
      · rw [List.mem_singleton.1 hes]
        exact List.forall_mem_nil _
  · cases ht

/-- What every step of a fold keeps is kept by the fold. -/
theorem kept_by_foldlM {σ γ : Type} {step : σ → γ → Option σ} (Good : σ → Prop) {items : List γ}
    (h : ∀ s s', ∀ a ∈ items, Good s → step s a = some s' → Good s') {s s' : σ} (hs : Good s)
    (hfold : items.foldlM step s = some s') : Good s' := by
  induction items generalizing s with
  | nil => exact Option.some.inj hfold ▸ hs
  | cons a items ih =>
    rw [List.foldlM_cons] at hfold
    obtain ⟨t, ht, hrest⟩ := Option.bind_eq_some_iff.1 hfold
    exact ih (fun s s' a ha => h s s' a (List.mem_cons_of_mem _ ha))
      (h s t a List.mem_cons_self hs ht) hrest

theorem bounded_inlineTable {pairs : List ((List String × String) × Value)} {v : Value}
    (h : ∀ p ∈ pairs, p.2.Bounded) (hv : inlineTable pairs = some v) : v.Bounded := by
  obtain ⟨t, ht, heq⟩ := Option.bind_eq_some_iff.1 hv
  obtain rfl := Option.some.inj heq
  refine .table _ (kept_by_foldlM Table.Bounded (fun t t' p hp ht => ?_) ?_ ht)
  · exact ht.assign? (h p hp)
  · exact List.forall_mem_nil _

/-! ## Lines -/

theorem yields_array {item : Reader Value} (h : Yields item Value.Bounded) :
    Yields (array item) Value.Bounded := by
  have hitem : Yields (do gaps; let v ← item; gaps; return v) Value.Bounded :=
    yields_bind fun _ => h.bind fun _ hv => yields_bind fun _ => yields_pure hv
  have hitems : Yields (do
      let items ← separated (do gaps; let v ← item; gaps; return v) (char ',')
      let _ ← optional (char ',')
      return items) fun items => ∀ v ∈ items, v.Bounded :=
    (hitem.separated _).bind fun _ hitems => yields_bind fun _ => yields_pure hitems
  refine yields_bind fun _ => hitems.optional.bind fun items hitems =>
    yields_bind fun _ => yields_bind fun _ => yields_pure (.array ?_)
  cases items with
  | none => exact List.forall_mem_nil _
  | some items => exact hitems items rfl

theorem yields_keyValue {item : Reader Value} (h : Yields item Value.Bounded) :
    Yields (keyValue item) fun p => p.2.Bounded :=
  yields_bind fun _ => yields_bind fun _ => yields_bind fun _ => h.bind fun _ hv => yields_pure hv

theorem yields_braced {item : Reader Value} (h : Yields item Value.Bounded) :
    Yields (braced item) Value.Bounded := by
  have hpair : Yields (do let p ← keyValue item; blanks; return p) fun p => p.2.Bounded :=
    (yields_keyValue h).bind fun _ hp => yields_bind fun _ => yields_pure hp
  refine yields_bind fun _ => (hpair.separated _).optional.bind fun pairs hpairs =>
    yields_bind fun _ => yields_bind fun _ => ?_
  have hall : ∀ p ∈ pairs.getD [], p.2.Bounded := by
    cases pairs with
    | none => exact List.forall_mem_nil _
    | some pairs => exact hpairs pairs rfl
  split
  · rename_i v hv
    exact yields_pure (bounded_inlineTable hall hv)
  · exact yields_failure

theorem yields_value (depth : Nat) : Yields (value depth) Value.Bounded := by
  induction depth with
  | zero => exact yields_scalar
  | succ depth ih => exact yields_scalar.orElse ((yields_array ih).orElse (yields_braced ih))

/-- No integer in a line is too large to be written. -/
def Line.Bounded : Line → Prop
  | .assignment _ _ v => v.Bounded
  | _ => True

theorem yields_line : Yields line fun l => ∀ l' ∈ l, l'.Bounded := by
  have helement : Yields elementLine Line.Bounded :=
    yields_bind fun _ => yields_bind fun _ => yields_bind fun _ => yields_bind fun _ =>
      yields_pure trivial
  have hheader : Yields headerLine Line.Bounded :=
    yields_bind fun _ => yields_bind fun _ => yields_bind fun _ => yields_bind fun _ =>
      yields_pure trivial
  have hassignment : Yields assignmentLine Line.Bounded :=
    (yields_keyValue (yields_value maxDepth)).bind fun _ hp => yields_bind fun _ => yields_pure hp
  have hsome {r : Reader Line} (h : Yields r Line.Bounded) :
      Yields (some <$> r) fun l => ∀ l' ∈ l, l'.Bounded :=
    h.map fun _ hl _ heq => Option.some.inj heq ▸ hl
  have hnone : Yields (pure none : Reader (Option Line)) fun l => ∀ l' ∈ l, l'.Bounded :=
    yields_pure fun _ h => nomatch h
  refine yields_bind fun first => ?_
  split
  · exact yields_bind fun _ => yields_bind fun _ => hnone
  · exact hsome (helement.orElse hheader)
  · exact yields_bind fun _ => hnone
  · exact yields_bind fun _ => hnone
  · exact hsome hassignment

theorem bounded_apply {f f' : Filling} {l : Line} (h : f.table.Bounded) (hl : l.Bounded)
    (hf : f.apply l = some f') : f'.table.Bounded := by
  cases l with
  | header path key =>
    obtain ⟨t, ht, rfl⟩ := Option.map_eq_some_iff.1 hf
    exact h.openTable? ht
  | element path key =>
    obtain ⟨t, ht, rfl⟩ := Option.map_eq_some_iff.1 hf
    exact h.openElement? ht
  | assignment path key v =>
    obtain ⟨t, ht, rfl⟩ := Option.map_eq_some_iff.1 hf
    exact h.update? (fun t t' h ht => h.assign? hl ht) ht

theorem yields_lines : Yields lines fun ls => ∀ l ∈ ls, l.Bounded := by
  have hline : Yields (do let l ← line; blanks; return l) fun l => ∀ l' ∈ l, l'.Bounded :=
    yields_line.bind fun _ hl => yields_bind fun _ => yields_pure hl
  refine yields_bind fun _ => yields_bind fun _ => hline.many.bind fun found hfound =>
    yields_pure fun l hl => ?_
  obtain ⟨l', hl', heq⟩ := List.mem_filterMap.1 hl
  exact hfound l' hl' l heq

/-- No integer of a document is too large to be written. -/
theorem bounded_parse {document : String} {t : Table} (h : parse document = some t) : t.Bounded := by
  obtain ⟨found, hfound, hfill⟩ := Option.bind_eq_some_iff.1 h
  obtain ⟨f, hf, heq⟩ := Option.bind_eq_some_iff.1 hfill
  obtain rfl := Option.some.inj heq
  have hlines := yields_lines.whole hfound
  exact kept_by_foldlM (fun f => f.table.Bounded)
    (fun _ _ l hl h hf => bounded_apply h (hlines l hl) hf) (List.forall_mem_nil _) hf

end Toml

end Orchestration
