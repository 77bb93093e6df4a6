import Orchestration.Proofs.Toml.Lines

/-!
# Rendered documents

A document can be rendered if all its integers are small enough, and then it says a header for each
section and an assignment for each value.
-/

namespace Orchestration.Toml

open Text

/-- The names that the header of a section is made of, and that all names in it need no quotes. -/
structure Section.Named (s : Section) (name : String) (names : List String) : Prop where
  header : s.header.toList = dotted (name :: names)
  bare : ∀ n ∈ name :: names, Bare n
  short : (name :: names).length ≤ maxDepth
  keys : ∀ e ∈ s.entries, Bare e.1

/-- The values of a section under their keys. -/
def Section.values (s : Section) : List (String × Value) :=
  s.entries.filterMap fun e => e.2.map fun v => (e.1, v.value)

/-- A line that gives a key a value. -/
def assignmentOf (e : String × Value) : Line := .assignment [] e.1 e.2

/-- The lines of a section that say something. -/
def Section.said (s : Section) (name : String) (names : List String) : List Line :=
  headerOf name names :: s.values.map assignmentOf

theorem says_entries {entries : List (String × Option Scalar)} {texts : List String}
    (h : ∀ e ∈ entries, Bare e.1) (ht : entries.mapM Section.entryText? = some texts) :
    Says (texts.flatMap String.toList)
      ((entries.filterMap fun e => e.2.map fun v => (e.1, v.value)).map assignmentOf) := by
  induction entries generalizing texts with
  | nil =>
    obtain rfl := Option.some.inj ht
    exact .nothing
  | cons e entries ih =>
    obtain ⟨key, v⟩ := e
    simp only [List.mapM_cons, Option.pure_def, Option.bind_eq_bind, Option.bind_eq_some_iff,
      Option.some.injEq] at ht
    obtain ⟨text, htext, texts, htexts, rfl⟩ := ht
    have hrest := ih (fun e he => h e (List.mem_cons_of_mem _ he)) htexts
    cases v with
    | none =>
      obtain rfl := Option.some.inj htext
      exact hrest
    | some v =>
      obtain ⟨t, hv, rfl⟩ := Option.map_eq_some_iff.1 htext
      have hentry := Says.entry (h _ List.mem_cons_self) hv hrest
      simpa [assignmentOf] using hentry

theorem says_section {s : Section} {name : String} {names : List String} {text : String}
    (h : s.Named name names) (ht : s.text? = some text) :
    Says text.toList (s.said name names) := by
  obtain ⟨texts, htexts, rfl⟩ := Option.map_eq_some_iff.1 ht
  have hheading := Says.heading h.bare h.short (says_entries h.keys htexts)
  simpa [h.header, Section.said, Section.values] using hheading

/-- A rendered document says what its sections say, one after the other. -/
theorem says_render {parts : List (Section × String × List String)} {document : String}
    (h : ∀ p ∈ parts, p.1.Named p.2.1 p.2.2)
    (ht : render? (parts.map (·.1)) = some document) :
    Says document.toList (parts.flatMap fun p => p.1.said p.2.1 p.2.2) := by
  obtain ⟨texts, htexts, rfl⟩ := Option.map_eq_some_iff.1 ht
  clear ht
  induction parts generalizing texts with
  | nil =>
    obtain rfl := Option.some.inj htexts
    exact .nothing
  | cons p parts ih =>
    simp only [List.map_cons, List.mapM_cons, Option.pure_def, Option.bind_eq_bind,
      Option.bind_eq_some_iff, Option.some.injEq] at htexts
    obtain ⟨text, htext, texts, htexts, rfl⟩ := htexts
    have hfirst := says_section (h p List.mem_cons_self) htext
    have hrest := ih (fun p hp => h p (List.mem_cons_of_mem _ hp)) texts htexts
    rw [List.flatMap_cons]
    cases texts with
    | nil => simpa using hfirst.append hrest
    | cons t texts =>
      simpa using hfirst.append (.empty hrest)

/-! ## When a document can be rendered -/

theorem Scalar.isSome_text?_iff (v : Scalar) :
    v.text?.isSome ↔ ∀ n, v = .integer n → n ≤ maxInteger := by
  cases v with
  | integer n =>
    rw [text?]
    split <;> simp_all
  | float x => simp [text?]

theorem isSome_mapM_iff {α β : Type} {f : α → Option β} {l : List α} :
    (l.mapM f).isSome ↔ ∀ a ∈ l, (f a).isSome := by
  induction l with
  | nil => simp
  | cons a l ih =>
    rw [List.mapM_cons, List.forall_mem_cons, ← ih]
    cases f a <;> cases l.mapM f <;> simp

theorem isSome_entryText?_iff (e : String × Option Scalar) :
    (Section.entryText? e).isSome ↔ ∀ n, e.2 = some (.integer n) → n ≤ maxInteger := by
  obtain ⟨key, v⟩ := e
  cases v with
  | none => simp [Section.entryText?]
  | some v => simp [Section.entryText?, Scalar.isSome_text?_iff]

/-- A document can be rendered exactly if none of its integers is too large. -/
theorem isSome_render?_iff (sections : List Section) :
    (render? sections).isSome ↔
      ∀ s ∈ sections, ∀ e ∈ s.entries, ∀ n, e.2 = some (.integer n) → n ≤ maxInteger := by
  simp only [render?, Option.isSome_map, isSome_mapM_iff, Section.text?, isSome_entryText?_iff]

end Orchestration.Toml
