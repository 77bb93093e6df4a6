import Orchestration.Config.File

/-!
# What is written can be read

A file that has been written at a path is found again by the same path and holds the text. A
configuration that cannot be rendered leaves the files alone.
-/

namespace Orchestration

namespace FileTree

variable {t t' : FileTree} {workingDirectory p q : Place} {path content : String}

/-- Putting an entry where no directory is changes no directory. -/
theorem at?_put_of_directory {here : Place} {e : FileEntry} (hp : t.at? p ≠ some .directory)
    (hhere : t.at? here = some .directory) : (t.put p e).at? here = some .directory := by
  by_cases hroot : here = []
  · subst hroot
    rfl
  · have hne : here ≠ p := by
      rintro rfl
      exact hp hhere
    rw [at?_put t p here e hroot, if_neg hne, hhere]

/-- Names lead to the same place when an entry is put where no directory is. -/
theorem follow_put {e : FileEntry} (hp : t.at? p ≠ some .directory) {names : List String}
    {here : Place} (h : t.follow here names = .ok q) : (t.put p e).follow here names = .ok q := by
  induction names generalizing here with
  | nil => exact h
  | cons name rest ih =>
    rw [follow] at h ⊢
    split at h
    · cases h
    · rename_i hhere
      rw [at?_put_of_directory hp hhere]
      dsimp only
      by_cases hdot : name = "."
      · rw [if_pos hdot] at h ⊢
        exact ih h
      · rw [if_neg hdot] at h ⊢
        by_cases hup : name = ".."
        · rw [if_pos hup] at h ⊢
          exact ih h
        · rw [if_neg hup] at h ⊢
          exact ih h
    · cases h

theorem locate_put {e : FileEntry} (hp : t.at? p ≠ some .directory)
    (h : t.locate workingDirectory path = .ok q) :
    (t.put p e).locate workingDirectory path = .ok q := by
  unfold locate at h ⊢
  by_cases hempty : path = ""
  · rw [if_pos hempty] at h
    cases h
  · rw [if_neg hempty] at h ⊢
    exact follow_put hp h

theorem names_of_not_endsInSlash (h : endsInSlash path = false) : names path = steps path := by
  rw [names, if_neg (by simp [h])]

/-- Writing puts the text at the place of the path, where no directory is. -/
theorem write_eq_ok (h : t.write workingDirectory path content = .ok t') :
    ∃ p, t.locate workingDirectory path = .ok p ∧ t.at? p ≠ some .directory ∧
      t' = t.put p (.text content) := by
  unfold write at h
  unfold locate
  split at h
  · cases h
  · rename_i hpath
    rw [if_neg hpath]
    cases hp : t.follow (start workingDirectory path) (steps path) with
    | error f =>
      rw [hp] at h
      cases h
    | ok p =>
      rw [hp] at h
      dsimp only [bind, Except.bind] at h
      split at h
      · cases h
      · rename_i hslash
        rw [names_of_not_endsInSlash (by simpa using hslash)]
        split at h
        · cases h
        · cases h
        · rename_i hdir _
          exact ⟨p, hp, hdir, (Except.ok.inj h).symm⟩

/-- What has been written is read. -/
theorem read_of_write (h : t.write workingDirectory path content = .ok t') :
    t'.read workingDirectory path = .ok content := by
  obtain ⟨p, hp, hfile, rfl⟩ := write_eq_ok h
  have hne : p ≠ [] := by
    rintro rfl
    exact hfile rfl
  have hat : (t.put p (.text content)).at? p = some (.text content) := by
    rw [at?_put t p p _ hne, if_pos rfl]
  unfold read
  rw [locate_put hfile hp]
  dsimp only [bind, Except.bind]
  rw [hat]

theorem read_of_saving (h : t.saving workingDirectory path content = (.ok (), t')) :
    t'.read workingDirectory path = .ok content := by
  unfold saving at h
  split at h
  · cases h
  · split at h
    · cases h
    · rename_i hwrite
      cases h
      exact read_of_write hwrite

/-! ## What stays as it is -/

theorem at?_put_of_ne {e : FileEntry} (h : q ≠ p) : (t.put p e).at? q = t.at? q := by
  by_cases hroot : q = []
  · subst hroot
    rfl
  · rw [at?_put t p q e hroot, if_neg h]

/-- Making directories changes nothing that is there. -/
theorem at?_makeDirectories {e : FileEntry} (names : List String) (here : Place)
    (h : t.at? q = some e) : (t.makeDirectories here names).2.at? q = some e := by
  induction names generalizing t here with
  | nil => exact h
  | cons name rest ih =>
    rw [makeDirectories]
    by_cases hdot : name = "."
    · rw [if_pos hdot]
      exact ih _ h
    · rw [if_neg hdot]
      by_cases hup : name = ".."
      · rw [if_pos hup]
        exact ih _ h
      · rw [if_neg hup]
        dsimp only
        split
        · rename_i hnone
          have hne : q ≠ here ++ [name] := by
            rintro rfl
            rw [hnone] at h
            cases h
          exact ih _ ((at?_put_of_ne hne).trans h)
        · exact ih _ h
        · exact h

/-- Where more names follow, there is a directory. -/
theorem directory_of_follow {name : String} {rest : List String} {here : Place}
    (h : t.follow here (name :: rest) = .ok q) : t.at? here = some .directory := by
  rw [follow] at h
  split at h
  · cases h
  · assumption
  · cases h

/-- On the way to a place that names lead to, no directory is missing. -/
theorem makeDirectories_of_follow {names : List String} {here : Place}
    (h : t.follow here names = .ok q) :
    t.makeDirectories here (names.filter (· ≠ ".")).dropLast = (.ok (), t) := by
  induction names generalizing here with
  | nil => rfl
  | cons name rest ih =>
    have hhere := directory_of_follow h
    rw [follow, hhere] at h
    dsimp only at h
    by_cases hdot : name = "."
    · rw [if_pos hdot] at h
      rw [List.filter_cons_of_neg (by simpa using hdot)]
      exact ih h
    · rw [if_neg hdot] at h
      rw [List.filter_cons_of_pos (by simpa using hdot)]
      by_cases hlast : rest.filter (· ≠ ".") = []
      · rw [hlast]
        rfl
      · rw [List.dropLast_cons_of_ne_nil hlast, makeDirectories, if_neg hdot]
        by_cases hup : name = ".."
        · rw [if_pos hup] at h ⊢
          exact ih h
        · rw [if_neg hup] at h ⊢
          have hmore : rest ≠ [] := by
            rintro rfl
            exact hlast rfl
          obtain ⟨next, others, rfl⟩ := List.exists_cons_of_ne_nil hmore
          dsimp only
          rw [directory_of_follow h]
          exact ih h

/-- What is followed to the directory itself leads to one, by the names before as well. -/
theorem follow_append_dot {names : List String} {here : Place}
    (h : t.follow here (names ++ ["."]) = .ok q) : t.at? q = some .directory := by
  induction names generalizing here with
  | nil =>
    have hhere := directory_of_follow h
    rw [List.nil_append, follow, hhere] at h
    obtain rfl : here = q := by simpa [follow] using h
    exact hhere
  | cons name rest ih =>
    rw [List.cons_append] at h
    have hhere := directory_of_follow h
    rw [follow, hhere] at h
    dsimp only at h
    split at h
    · exact ih h
    · split at h
      · exact ih h
      · exact ih h

/-- A text that is read stands at the place of the path. -/
theorem read_eq_ok {document : String} (h : t.read workingDirectory path = .ok document) :
    ∃ p, t.locate workingDirectory path = .ok p ∧ t.at? p = some (.text document) := by
  unfold read at h
  cases hp : t.locate workingDirectory path with
  | error f =>
    rw [hp] at h
    cases h
  | ok p =>
    rw [hp] at h
    dsimp only [bind, Except.bind] at h
    refine ⟨p, rfl, ?_⟩
    split at h
    case h_2 content htext =>
      cases h
      exact htext
    all_goals cases h

/-- Where a file can be read, a text can be saved, and only that file changes. -/
theorem saving_of_read {document : String} (h : t.read workingDirectory path = .ok document)
    (content : String) : ∃ p, t.locate workingDirectory path = .ok p ∧
      t.saving workingDirectory path content = (.ok (), t.put p (.text content)) := by
  obtain ⟨p, hp, htext⟩ := read_eq_ok h
  refine ⟨p, hp, ?_⟩
  unfold locate at hp
  split at hp
  · cases hp
  · rename_i hpath
    have hslash : endsInSlash path = false := by
      refine Bool.eq_false_iff.mpr fun hslash => ?_
      rw [names, if_pos hslash] at hp
      have hdirectory := follow_append_dot hp
      simp [htext] at hdirectory
    rw [names_of_not_endsInSlash hslash] at hp
    have hway : t.makeDirectories (start workingDirectory path) (parents path) = (.ok (), t) :=
      makeDirectories_of_follow hp
    simp only [saving, hway, write, if_neg hpath, hp, hslash, bind, Except.bind, htext,
      Bool.false_eq_true, if_false]

/-- Saving a text changes nothing else that is there. -/
theorem at?_saving {result : Except FileFault Unit} {e : FileEntry}
    (h : t.saving workingDirectory path content = (result, t')) (hq : t.at? q = some e)
    (hother : result = .ok () → t'.locate workingDirectory path ≠ .ok q) :
    t'.at? q = some e := by
  have hmade := at?_makeDirectories (parents path) (start workingDirectory path) hq
  unfold saving at h
  split at h
  · rename_i hdirectories
    rw [hdirectories] at hmade
    cases h
    exact hmade
  · rename_i hdirectories
    rw [hdirectories] at hmade
    split at h
    · cases h
      exact hmade
    · rename_i hwrite
      cases h
      obtain ⟨p, hp, hfile, rfl⟩ := write_eq_ok hwrite
      have hne : q ≠ p := by
        rintro rfl
        exact hother rfl (locate_put hfile hp)
      rw [at?_put_of_ne hne, hmade]

end FileTree

namespace Config

variable {files files' : FileTree} {workingDirectory : Place} {path : String}

/-- What is loaded is what the text of the file describes. -/
theorem load_eq_ok_iff {c : Config} : load files workingDirectory path = .ok c ↔
    ∃ document, files.read workingDirectory path = .ok document ∧ ofToml? document = some c := by
  unfold load
  cases files.read workingDirectory path with
  | error cause => simp
  | ok document =>
    simp only [Except.ok.injEq, exists_eq_left']
    cases ofToml? document <;> simp

/-- A configuration that cannot be rendered leaves the files as they are. -/
theorem saving_of_none {c : Config} (h : c.toToml? = none) (files : FileTree)
    (workingDirectory : Place) (path : String) :
    c.saving files workingDirectory path = (.error .tooLarge, files) := by
  rw [saving, text, h]

/-- A configuration that has been rendered is saved exactly if its text is. -/
theorem saving_of_some {c : Config} {document : String} (h : c.toToml? = some document) :
    c.saving files workingDirectory path = (.ok (), files') ↔
      files.saving workingDirectory path document = (.ok (), files') := by
  rw [saving, text, h]
  dsimp only
  split
  · rename_i hfiles
    simp [hfiles]
  · rename_i hfiles
    simp [hfiles]

end Config

end Orchestration
