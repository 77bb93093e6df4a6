import Orchestration.CommandLine.Basic
import Orchestration.Proofs.Config.RoundTrip
import Orchestration.Proofs.Text.Splitting

/-! # Writing the default configuration

Where the command to write the default configuration gets to work, the configuration stands at its
path afterwards and nothing else that was there has changed. Under a path that was given it only
gets to work if a configuration stands there already, since that is loaded first. -/

namespace Orchestration.CommandLine

/-- The default configuration has been written to the path, and all that the path does not mean is
as it was. -/
structure Initialised (env : Environment) (files : FileTree) (path : String) (o : Outcome) :
    Prop where
  code : o.code = 0
  loads : Config.load o.files env.workingDirectory path = .ok .default
  keeps : ∀ place entry, files.at? place = some entry →
    o.files.locate env.workingDirectory path ≠ .ok place → o.files.at? place = some entry
  told : o.output = "Wrote default configuration to " ++ path ++ "\n"
  written : ∃ content, Config.default.text = .ok content ∧ o.written = some ⟨path, content⟩

/-- Nothing has been written, and all that was there is as it was. -/
structure Refused (files : FileTree) (o : Outcome) : Prop where
  code : o.code ≠ 0
  keeps : ∀ place entry, files.at? place = some entry → o.files.at? place = some entry
  silent : o.output = ""
  unwritten : o.written = none

/-- Nothing stands at the path unless that is overridden, and the default configuration can be
saved there. -/
def Ready (env : Environment) (files : FileTree) (path : String) (force : Bool) : Prop :=
  (files.occupied env.workingDirectory path = false ∨ force = true) ∧
    ∃ files', Config.default.saving files env.workingDirectory path = (.ok (), files')

theorem refused_failure {files files' : FileTree} (message : String)
    (hkeeps : ∀ place entry, files.at? place = some entry → files'.at? place = some entry) :
    Refused files (.failure files' message) :=
  ⟨show (1 : UInt32) ≠ 0 by decide, hkeeps, rfl, rfl⟩

theorem text_default : Config.default.text = .ok "[runner]\n\n[policies]\n" := by decide +kernel

theorem saving_default {files files' : FileTree} {workingDirectory : Place} {path : String}
    (h : files.saving workingDirectory path "[runner]\n\n[policies]\n" = (.ok (), files')) :
    Config.default.saving files workingDirectory path = (.ok (), files') :=
  (Config.saving_of_some (Config.text_eq_ok_iff.mp text_default)).mpr h

/-! ## The command itself -/

section

variable {env : Environment} {files files' : FileTree} {r : Reading} {path : String}

theorem keeps_of_saving {c : Config} {result : Except ConfigFault Unit}
    (h : c.saving files env.workingDirectory path = (result, files')) {place : Place}
    {entry : FileEntry} (hentry : files.at? place = some entry)
    (hother : result = .ok () → files'.locate env.workingDirectory path ≠ .ok place) :
    files'.at? place = some entry := by
  unfold Config.saving at h
  split at h
  · cases h
    exact hentry
  · split at h
    · rename_i hfiles
      cases h
      exact FileTree.at?_saving hfiles hentry nofun
    · rename_i hfiles
      cases h
      exact FileTree.at?_saving hfiles hentry fun _ => hother rfl

theorem initConfig_of_occupied (hpath : configPath? env r = some path)
    (hoccupied : files.occupied env.workingDirectory path = true) (hforce : r.force = false) :
    initConfig env files r =
      .failure files (path ++ " already exists (use --force to overwrite)") := by
  unfold initConfig
  rw [hpath]
  dsimp only
  rw [if_pos ⟨hoccupied, by simp [hforce]⟩]

section

variable (hpath : configPath? env r = some path)
  (hmay : files.occupied env.workingDirectory path = false ∨ r.force = true)

include hpath hmay

theorem initConfig_of_saved
    (hsaving : Config.default.saving files env.workingDirectory path = (.ok (), files')) :
    Initialised env files path (initConfig env files r) := by
  unfold initConfig
  rw [hpath]
  dsimp only
  rw [if_neg (by rcases hmay with h | h <;> simp [h]), hsaving, text_default]
  exact ⟨rfl, Config.load_of_saving hsaving,
    fun _ _ hentry hother => keeps_of_saving hsaving hentry fun _ => hother, rfl,
    _, text_default, rfl⟩

theorem initConfig_of_unsaved {fault : ConfigFault}
    (hsaving : Config.default.saving files env.workingDirectory path = (.error fault, files')) :
    Refused files (initConfig env files r) := by
  unfold initConfig
  rw [hpath]
  dsimp only
  rw [if_neg (by rcases hmay with h | h <;> simp [h]), hsaving]
  exact refused_failure _ fun _ _ hentry => keeps_of_saving hsaving hentry nofun

end

/-- What stands at the path is only replaced if that is forced, and otherwise the command succeeds
where the default configuration can be saved. -/
theorem initConfig_spec (hpath : configPath? env r = some path) :
    (Ready env files path r.force → Initialised env files path (initConfig env files r)) ∧
      (¬ Ready env files path r.force → Refused files (initConfig env files r)) := by
  constructor
  · rintro ⟨hmay, files', hsaving⟩
    exact initConfig_of_saved hpath hmay hsaving
  intro hnot
  by_cases hmay : files.occupied env.workingDirectory path = false ∨ r.force = true
  · cases hsaving : Config.default.saving files env.workingDirectory path with
    | mk result files' =>
        cases result with
        | ok done => exact absurd ⟨hmay, files', hsaving⟩ hnot
        | error fault => exact initConfig_of_unsaved hpath hmay hsaving
  · obtain ⟨hoccupied, hforce⟩ := not_or.mp hmay
    rw [initConfig_of_occupied hpath (by simpa using hoccupied) (by simpa using hforce)]
    exact refused_failure _ fun _ _ hentry => hentry

/-- Where a configuration can be loaded, another one can be saved. -/
theorem exists_saving_of_load {c : Config}
    (hload : Config.load files env.workingDirectory path = .ok c) :
    ∃ files', Config.default.saving files env.workingDirectory path = (.ok (), files') := by
  obtain ⟨document, hread, -⟩ := Config.load_eq_ok_iff.mp hload
  obtain ⟨p, -, hsaving⟩ := FileTree.saving_of_read hread "[runner]\n\n[policies]\n"
  exact ⟨_, saving_default hsaving⟩

theorem occupied_of_load {c : Config}
    (hload : Config.load files env.workingDirectory path = .ok c) :
    files.occupied env.workingDirectory path = true := by
  obtain ⟨document, hread, -⟩ := Config.load_eq_ok_iff.mp hload
  obtain ⟨p, hp, htext⟩ := FileTree.read_eq_ok hread
  simp [FileTree.occupied, hp, htext]

end

/-! ## The arguments -/

/-- The arguments for the command: a path or none, and whether it is forced. -/
def initArguments (path : Option String) (force : Bool) : List String :=
  path.elim [] (["--config", ·]) ++ ["config", "init"] ++ if force then ["--force"] else []

/-- What these arguments say. -/
def initReading (path : Option String) (force : Bool) : Reading :=
  { Reading.initial with
    command := .configInit
    given := if force then [.force] else []
    configPath := path
    force }

/-- A path may be given first, but neither an empty one nor one that looks like an option. -/
theorem ofArguments_config (path : String) (rest : List String) :
    Request.ofArguments ("--config" :: path :: rest) =
      if Reading.looksLikeOption path = true ∨ path = "" then .misuse
      else { Reading.initial with given := [.config], configPath := some path }.arguments none
        rest := by
  have hoption : Reading.initial.longOption "config" none = .inr (.initial, some .config) := by cbv
  have hsplit : Reading.splitLong "--config" = ("config", none) := by cbv
  have hdash : Reading.looksLikeOption "--config" = true := by cbv
  have hdashes : "--config".startsWith "--" = true := by cbv
  rw [Request.ofArguments, Reading.arguments, if_neg (by decide), if_pos hdash, if_pos hdashes,
    hsplit]
  dsimp only
  rw [hoption]
  dsimp only
  rw [Reading.arguments]
  by_cases hlooks : Reading.looksLikeOption path = true
  · simp [hlooks]
  · by_cases hempty : path = ""
    · subst hempty
      cbv
    · simp [hlooks, hempty, Reading.take?, Reading.initial]

theorem ofArguments_init_usual (force : Bool) :
    Request.ofArguments (initArguments none force) = .run (initReading none force) := by
  cases force <;> cbv

theorem ofArguments_init_named (path : String) (force : Bool) :
    Request.ofArguments (initArguments (some path) force) =
      if Reading.looksLikeOption path = true ∨ path = "" then .misuse
      else .run (initReading (some path) force) := by
  have hrest : { Reading.initial with given := [.config], configPath := some path }.arguments none
      (["config", "init"] ++ if force then ["--force"] else []) =
        .run (initReading (some path) force) := by
    cases force <;> cbv
  rw [← hrest]
  exact ofArguments_config path _

/-! ## The program -/

variable {env : Environment} {files : FileTree}

/-- At the usual path the command gets to work whatever stands there. -/
theorem run_init_usual (env : Environment) (files : FileTree) (force : Bool) :
    run env files (initArguments none force) = initConfig env files (initReading none force) := by
  rw [run, ofArguments_init_usual]
  rfl

/-- At a path that was given it only gets to work if a configuration can be loaded from there. -/
theorem run_init_named {path : String} (hlooks : Reading.looksLikeOption path = false) {c : Config}
    (hload : Config.load files env.workingDirectory path = .ok c) (force : Bool) :
    run env files (initArguments (some path) force) =
      initConfig env files (initReading (some path) force) := by
  have hempty : path ≠ "" := by
    rintro rfl
    simp [Config.load, FileTree.read, FileTree.locate, bind, Except.bind] at hload
  rw [run, ofArguments_init_named, if_neg (by simp [hlooks, hempty])]
  simp only [effectiveConfig, initReading, hload]
  rfl

/-- At a path that was given the command does nothing unless it is forced and a configuration can
be loaded from there. -/
theorem run_init_idle {path : String} {force : Bool}
    (hnot : ¬ (Reading.looksLikeOption path = false ∧ force = true ∧
      ∃ c, Config.load files env.workingDirectory path = .ok c)) :
    ∃ code errors, code ≠ 0 ∧ run env files (initArguments (some path) force) =
      ⟨code, "", errors, files, none, 0⟩ := by
  by_cases hmisuse : Reading.looksLikeOption path = true ∨ path = ""
  · rw [run, ofArguments_init_named, if_pos hmisuse]
    exact ⟨2, usage .program, show (2 : UInt32) ≠ 0 by decide, rfl⟩
  · have hlooks : Reading.looksLikeOption path = false := by
      simpa using (not_or.mp hmisuse).1
    refine ⟨1, ?_⟩
    cases hload : Config.load files env.workingDirectory path with
    | error fault =>
        rw [run, ofArguments_init_named, if_neg hmisuse]
        simp only [effectiveConfig, initReading, hload]
        exact ⟨_, show (1 : UInt32) ≠ 0 by decide, rfl⟩
    | ok c =>
        have hforce : force = false := by
          simpa [hlooks, hload] using hnot
        rw [run_init_named hlooks hload,
          initConfig_of_occupied rfl (occupied_of_load hload) hforce]
        exact ⟨_, show (1 : UInt32) ≠ 0 by decide, rfl⟩

/-- With a path that was given, the default configuration is written if that is forced and a
configuration can already be loaded from there, and otherwise nothing is done. The same path is free
to be written where it is the usual one and is not given. -/
theorem initialised_by_path (env : Environment) (files : FileTree) (path : String)
    (force : Bool) :
    let named := run env files (initArguments (some path) force)
    let unnamed := run env files (initArguments none force)
    let works := Reading.looksLikeOption path = false ∧ force = true ∧
      ∃ c, Config.load files env.workingDirectory path = .ok c
    (works → Initialised env files path named) ∧
      (¬ works → Refused files named ∧ named.files = files) ∧
      (∀ home, env.configHome = some home → path = Config.usualPath home →
        (Ready env files path force → Initialised env files path unnamed) ∧
          (¬ Ready env files path force → Refused files unnamed)) := by
  refine ⟨?_, ?_, ?_⟩
  case refine_1 =>
    rintro ⟨hlooks, hforce, c, hload⟩
    obtain ⟨files', hsaving⟩ := exists_saving_of_load hload
    rw [run_init_named hlooks hload]
    exact initConfig_of_saved rfl (.inr hforce) hsaving
  case refine_2 =>
    intro hnot
    obtain ⟨code, errors, hcode, hrun⟩ := run_init_idle hnot
    rw [hrun]
    exact ⟨⟨hcode, fun _ _ hentry => hentry, rfl, rfl⟩, rfl⟩
  case refine_3 =>
    rintro home hhome rfl
    have hpath : configPath? env (initReading none force) = some (Config.usualPath home) := by
      simp [configPath?, initReading, hhome, Reading.initial]
    rw [run_init_usual]
    exact initConfig_spec hpath

/-- The names of the usual path in one directory. -/
theorem steps_usualPath :
    FileTree.endsInSlash (Config.usualPath "/h") = false ∧
      FileTree.steps (Config.usualPath "/h") = ["h", "agentplan", "config.toml"] ∧
      FileTree.names (Config.usualPath "/h") = ["h", "agentplan", "config.toml"] := by
  have hslash : FileTree.endsInSlash (Config.usualPath "/h") = false := by decide +kernel
  have hsteps : FileTree.steps (Config.usualPath "/h") = ["h", "agentplan", "config.toml"] := by
    rw [FileTree.steps, Text.splitOn_slash]
    decide +kernel
  exact ⟨hslash, hsteps, (FileTree.names_of_not_endsInSlash hslash).trans hsteps⟩

/-- On an empty disk nothing is done if the usual path is given, and the configuration is written if
it is not. -/
theorem initialised_by_path_usual :
    let env : Environment := ⟨[], some "/h"⟩
    let path := Config.usualPath "/h"
    Refused .empty (run env .empty (initArguments (some path) false)) ∧
      Initialised env .empty path (run env .empty (initArguments none false)) := by
  have h := initialised_by_path ⟨[], some "/h"⟩ .empty (Config.usualPath "/h") false
  obtain ⟨hslash, hsteps, hnames⟩ := steps_usualPath
  have hplace : FileTree.empty.locate [] (Config.usualPath "/h") = .error .notFound := by
    rw [FileTree.locate, hnames]
    cbv
  have habsent : FileTree.empty.occupied [] (Config.usualPath "/h") = false := by
    rw [FileTree.occupied, hplace]
  have hsaving : FileTree.empty.saving [] (Config.usualPath "/h") "[runner]\n\n[policies]\n" =
      (.ok (), ⟨[(["h"], .directory), (["h", "agentplan"], .directory),
        (["h", "agentplan", "config.toml"], .text "[runner]\n\n[policies]\n")]⟩) := by
    simp only [FileTree.saving, FileTree.write, FileTree.parents, hsteps, hslash]
    cbv
  exact ⟨(h.2.1 (by simp)).1, (h.2.2 "/h" rfl rfl).1 ⟨.inl habsent, _, saving_default hsaving⟩⟩

/-- Nothing stands at the path and the configuration can be saved there, but it is not written. -/
theorem absent_path_not_initialised :
    let env : Environment := ⟨[], none⟩
    FileTree.empty.occupied [] "new.toml" = false ∧
      (∃ files, Config.default.saving .empty [] "new.toml" = (.ok (), files)) ∧
      ∀ force, ¬ Initialised env .empty "new.toml"
        (run env .empty (initArguments (some "new.toml") force)) := by
  intro env
  have hslash : FileTree.endsInSlash "new.toml" = false := by decide +kernel
  have hsteps : FileTree.steps "new.toml" = ["new.toml"] := by
    rw [FileTree.steps, Text.splitOn_slash]
    decide +kernel
  have hnames := (FileTree.names_of_not_endsInSlash hslash).trans hsteps
  have hplace : FileTree.empty.locate [] "new.toml" = .ok ["new.toml"] := by
    rw [FileTree.locate, hnames]
    cbv
  have hsaving : FileTree.empty.saving [] "new.toml" "[runner]\n\n[policies]\n" =
      (.ok (), ⟨[(["new.toml"], .text "[runner]\n\n[policies]\n")]⟩) := by
    simp only [FileTree.saving, FileTree.write, FileTree.parents, hsteps, hslash]
    cbv
  have hload : Config.load .empty [] "new.toml" = .error (.unreadable "new.toml" .notFound) := by
    rw [Config.load, FileTree.read, hplace]
    cbv
  have habsent : FileTree.empty.occupied [] "new.toml" = false := by
    rw [FileTree.occupied, hplace]
    cbv
  refine ⟨habsent, ⟨_, saving_default hsaving⟩, fun force hdone => ?_⟩
  have hnot : ¬ (Reading.looksLikeOption "new.toml" = false ∧ force = true ∧
      ∃ c, Config.load .empty env.workingDirectory "new.toml" = .ok c) := by simp [env, hload]
  obtain ⟨code, errors, hcode, hrun⟩ := run_init_idle hnot
  rw [hrun] at hdone
  exact hcode hdone.code

end Orchestration.CommandLine
