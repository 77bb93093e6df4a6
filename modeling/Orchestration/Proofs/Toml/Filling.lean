import Orchestration.Proofs.Toml.Rendering

/-!
# Filling tables

The lines of a section fill the table that its header opens with the values of the section, wherever
in the document the table is.
-/

namespace Orchestration.Toml

theorem lookup_of_notMem {key : String} {entries : Entries String Value} (h : key ∉ entries.keys) :
    entries.lookup key = none := by
  refine List.lookup_eq_none_iff.2 fun e he => ?_
  simpa using fun heq : key = e.1 => h (heq ▸ List.mem_map_of_mem he)

theorem set_last {key : String} {entries : Entries String Value} (h : key ∉ entries.keys)
    (v w : Value) : Entries.set key w (entries ++ [(key, v)]) = entries ++ [(key, w)] := by
  induction entries with
  | nil => simp [Entries.set]
  | cons e entries ih =>
    obtain ⟨he, hrest⟩ : e.1 ≠ key ∧ key ∉ Entries.keys entries := by
      simpa [Entries.keys, eq_comm] using h
    rw [List.cons_append, Entries.set, if_neg (by simpa using he), ih hrest, List.cons_append]

/-! ## The open table -/

/-- A document in which a table is open at a path, as a function of that table: whatever lines do at
the path happens to the open table. -/
def KeepsOpen (path : List String) (document : Table → Table) : Prop :=
  ∀ (entries : Entries String Value) (change : Table → Option Table),
    (document ⟨.header, entries⟩).update? false change path =
      (change ⟨.header, entries⟩).map document

theorem keepsOpen_root : KeepsOpen [] id := by
  intro entries change
  simp [Table.update?]

/-- A table behind other entries. -/
def behind (origin : Origin) (before : Entries String Value) (key : String)
    (inner : Table → Table) (t : Table) : Table :=
  ⟨origin, before ++ [(key, .table (inner t).origin (inner t).entries)]⟩

theorem KeepsOpen.behind {path : List String} {inner : Table → Table} (h : KeepsOpen path inner)
    (horigin : ∀ entries, (inner ⟨.header, entries⟩).origin ≠ .inline) (origin : Origin)
    {before : Entries String Value} {key : String} (hkey : key ∉ before.keys) :
    KeepsOpen (key :: path) (behind origin before key inner) := by
  intro entries change
  have hget : (Toml.behind origin before key inner ⟨.header, entries⟩).get? key =
      some (.table (inner ⟨.header, entries⟩).origin (inner ⟨.header, entries⟩).entries) := by
    simp [Toml.behind, Table.get?, List.lookup_append, lookup_of_notMem hkey]
  have hbelow := h entries change
  rw [Table.update?, hget]
  dsimp only
  rw [if_neg (by simp [horigin]), hbelow]
  cases change ⟨.header, entries⟩ with
  | none => rfl
  | some t => simp [Toml.behind, Table.set, set_last hkey]

/-! ## Headers -/

/-- A header opens a new table behind the entries that are there. -/
theorem apply_header {path : List String} {document : Table → Table} (h : KeepsOpen path document)
    {entries : Entries String Value} {key : String} (hkey : key ∉ entries.keys)
    (current : List String) :
    Filling.apply ⟨document ⟨.header, entries⟩, current⟩ (.header path key) =
      some ⟨document (behind .header entries key id ⟨.header, []⟩), path ++ [key]⟩ := by
  rw [Filling.apply, Table.openTable?, h]
  simp [Table.get?, lookup_of_notMem hkey, Table.set, Entries.set_of_notMem _ _ _ hkey, behind]

/-- A longer header implies the table above the one that it opens. -/
theorem apply_header_implied {entries : Entries String Value} {above : String}
    (habove : above ∉ entries.keys) (key : String) (current : List String) :
    Filling.apply ⟨⟨.header, entries⟩, current⟩ (.header [above] key) =
      some ⟨behind .header entries above (behind .implied [] key id) ⟨.header, []⟩, [above, key]⟩ := by
  rw [Filling.apply, Table.openTable?, Table.update?]
  simp [Table.get?, lookup_of_notMem habove, Table.update?, Table.set,
    Entries.set_of_notMem _ _ _ habove, behind, Entries.set]

/-! ## Values -/

theorem apply_assignmentOf {path : List String} {document : Table → Table}
    (h : KeepsOpen path document) {entries : Entries String Value} {e : String × Value}
    (he : e.1 ∉ entries.keys) :
    Filling.apply ⟨document ⟨.header, entries⟩, path⟩ (assignmentOf e) =
      some ⟨document ⟨.header, entries ++ [e]⟩, path⟩ := by
  have hassign : (⟨.header, entries⟩ : Table).assign? [] e.1 e.2 =
      some ⟨.header, entries ++ [e]⟩ := by
    simp [Table.assign?, Table.update?, Table.add?, Table.get?, lookup_of_notMem he, Table.set,
      Entries.set_of_notMem _ _ _ he]
  rw [assignmentOf, Filling.apply, h, hassign]
  rfl

theorem fill_assignments {path : List String} {document : Table → Table}
    (h : KeepsOpen path document) (values : List (String × Value)) (entries : Entries String Value)
    (hkeys : (Entries.keys (entries ++ values)).Nodup) :
    (values.map assignmentOf).foldlM Filling.apply ⟨document ⟨.header, entries⟩, path⟩ =
      some ⟨document ⟨.header, entries ++ values⟩, path⟩ := by
  induction values generalizing entries with
  | nil => simp
  | cons e values ih =>
    have he : e.1 ∉ entries.keys := by
      rw [Entries.keys, List.map_append, List.nodup_append] at hkeys
      exact fun hmem => hkeys.2.2 _ hmem _ List.mem_cons_self rfl
    rw [List.map_cons, List.foldlM_cons, apply_assignmentOf h he]
    have hrest := ih (entries ++ [e]) (by simpa using hkeys)
    simpa using hrest

/-- A section fills the table that its header opens. -/
theorem fill_section {s : Section} {name : String} {names : List String} {f : Filling}
    {path : List String} {document : Table → Table} (h : KeepsOpen path document)
    (hkeys : (Entries.keys s.values).Nodup)
    (hopen : f.apply (headerOf name names) = some ⟨document ⟨.header, []⟩, path⟩) :
    (s.said name names).foldlM Filling.apply f = some ⟨document ⟨.header, s.values⟩, path⟩ := by
  rw [Section.said, List.foldlM_cons, hopen]
  exact fill_assignments h s.values [] hkeys

/-! ## Sections -/

variable {s : Section} {entries : Entries String Value}

/-- A section with a single name becomes a table of the root. -/
theorem fill_top {name : String} (hkeys : (Entries.keys s.values).Nodup)
    (hname : name ∉ entries.keys) (current : List String) :
    (s.said name []).foldlM Filling.apply ⟨⟨.header, entries⟩, current⟩ =
      some ⟨⟨.header, entries ++ [(name, .table .header s.values)]⟩, [name]⟩ :=
  fill_section (keepsOpen_root.behind (by simp) .header hname) hkeys
    (apply_header keepsOpen_root hname current)

/-- A section below another one becomes a table of that one's table. -/
theorem fill_below {above name : String} {values : Entries String Value}
    (hkeys : (Entries.keys s.values).Nodup) (habove : above ∉ entries.keys)
    (hname : name ∉ values.keys) (current : List String) :
    (s.said above [name]).foldlM Filling.apply
        ⟨⟨.header, entries ++ [(above, .table .header values)]⟩, current⟩ =
      some ⟨⟨.header, entries ++
        [(above, .table .header (values ++ [(name, .table .header s.values)]))]⟩, [above, name]⟩ := by
  have hopen : KeepsOpen [above] (behind .header entries above id) :=
    keepsOpen_root.behind (by simp) .header habove
  have hbelow : KeepsOpen [name] (behind .header values name id) :=
    keepsOpen_root.behind (by simp) .header hname
  exact fill_section (hbelow.behind (by simp [behind]) .header habove) hkeys
    (apply_header hopen hname current)

/-- A section below a missing one implies that one's table. -/
theorem fill_implied {above name : String} (hkeys : (Entries.keys s.values).Nodup)
    (habove : above ∉ entries.keys) (current : List String) :
    (s.said above [name]).foldlM Filling.apply ⟨⟨.header, entries⟩, current⟩ =
      some ⟨⟨.header, entries ++ [(above, .table .implied [(name, .table .header s.values)])]⟩,
        [above, name]⟩ := by
  have hbelow : KeepsOpen [name] (behind .implied [] name id) :=
    keepsOpen_root.behind (by simp) .implied (List.not_mem_nil)
  exact fill_section (hbelow.behind (by simp [behind]) .header habove) hkeys
    (apply_header_implied habove name current)

/-- A document is the table that its lines fill. -/
theorem parse_of_says {document : String} {ls : List Line} {f : Filling}
    (h : Says document.toList ls) (hf : ls.foldlM Filling.apply ⟨.root, []⟩ = some f) :
    parse document = some f.table := by
  rw [parse, h.lines]
  simp [hf]

end Orchestration.Toml
