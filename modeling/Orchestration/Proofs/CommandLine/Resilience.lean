import Orchestration.CommandLine.Basic
import Orchestration.Proofs.CommandLine.Initialisation
import Orchestration.Proofs.Config.RoundTrip
import Orchestration.Proofs.Demo.Pipeline

/-! # Commands whatever the configuration file holds

The file at the usual place cannot keep a command from succeeding: either it loads, or the default
configuration takes its place. A file that was named has to load, and otherwise nothing is
printed. -/

namespace Orchestration.CommandLine

/-- The configuration that holds if no file was named: that of the file at the usual place if it
loads, and otherwise the default. -/
inductive Usual (env : Environment) (files : FileTree) : Config → Prop
  | loaded {home : String} {c : Config} (hhome : env.configHome = some home)
      (hload : Config.load files env.workingDirectory (Config.usualPath home) = .ok c) :
      Usual env files c
  | default (hnone : ∀ home c, env.configHome = some home →
      Config.load files env.workingDirectory (Config.usualPath home) ≠ .ok c) :
      Usual env files .default

/-- The commands that use the configuration succeed and leave the files as they are: the one that
shows the configuration prints a text from which it is loaded again, the one that has a plan checked
says that the plan is rejected, and the demonstration prints both texts. -/
structure Serves (config : Config) (files : FileTree) (r : Reading) (o : Outcome) : Prop where
  shows : r.command = .configShow ∨ r.command = .config →
    ∃ document, o = .success files document ∧ config.text = .ok document ∧
      ∀ (files' : FileTree) (workingDirectory : Place) (path : String),
        files'.read workingDirectory path = .ok document →
          Config.load files' workingDirectory path = .ok config
  rejects : r.command = .validateDemo → o = .success files
    "rejected: The plan is invalid: dependency cycle among nodes [a, b]\n"
  demonstrates : r.command = .demo → o =
    { Outcome.success files (outputText (Demo.outputs config r.flaky r.input)) with
      elapsed := Demo.waited config r.flaky }

variable {env : Environment} {files : FileTree} {r : Reading} {config : Config}

/-! ## The configuration -/

theorem usual_loadUsual (env : Environment) (files : FileTree) :
    Usual env files (Config.loadUsual files env.workingDirectory
      (env.configHome.map Config.usualPath)) := by
  cases hhome : env.configHome with
  | none =>
    refine .default fun home c h => ?_
    rw [hhome] at h
    cases h
  | some home =>
    rw [Option.map_some, Config.loadUsual]
    cases hload : Config.load files env.workingDirectory (Config.usualPath home) with
    | ok c => exact .loaded hhome hload
    | error fault =>
      refine .default fun home' c h hload' => ?_
      obtain rfl : home = home' := Option.some.inj (hhome.symm.trans h)
      rw [hload] at hload'
      cases hload'

theorem integers_le_of_load {path : String} {workingDirectory : Place}
    (h : Config.load files workingDirectory path = .ok config) :
    ∀ n ∈ config.integers, n ≤ Toml.maxInteger := by
  obtain ⟨document, -, hdocument⟩ := Config.load_eq_ok_iff.mp h
  exact Config.integers_le_of_ofToml? hdocument

/-- A configuration that holds can be rendered, wherever it comes from. -/
theorem exists_text_of_effective (h : effectiveConfig env files r = .ok config) :
    ∃ document, config.text = .ok document := by
  unfold effectiveConfig at h
  split at h
  · exact (Config.exists_text_iff config).mpr (integers_le_of_load h)
  · have husual := usual_loadUsual env files
    rw [Except.ok.inj h] at husual
    cases husual with
    | loaded hhome hload => exact (Config.exists_text_iff config).mpr (integers_le_of_load hload)
    | default hnone => exact ⟨_, text_default⟩

theorem load_of_text {document : String} (htext : config.text = .ok document)
    {workingDirectory : Place} {path : String}
    (hread : files.read workingDirectory path = .ok document) :
    Config.load files workingDirectory path = .ok config :=
  Config.load_eq_ok_iff.mpr
    ⟨document, hread, Config.ofToml?_toToml? (Config.text_eq_ok_iff.mp htext)⟩

/-! ## The commands -/

theorem showConfig_of_text {document : String} (htext : config.text = .ok document)
    (files : FileTree) : showConfig config files = .success files document := by
  rw [showConfig, htext]

/-- Two nodes that wait for each other are no plan. -/
theorem cyclicPlan_eq : Demo.cyclicPlan = .error (.cycle ["a", "b"]) := rfl

theorem validateDemo_eq (files : FileTree) : validateDemo files =
    .success files "rejected: The plan is invalid: dependency cycle among nodes [a, b]\n" := by
  rw [validateDemo, cyclicPlan_eq]
  rfl

theorem demo_eq (config : Config) (files : FileTree) (r : Reading) : demo config files r =
    { Outcome.success files (outputText (Demo.outputs config r.flaky r.input)) with
      elapsed := Demo.waited config r.flaky } := by
  rw [demo, Demo.run_eq config r.flaky r.input none nofun]

theorem serves_carryOut (h : effectiveConfig env files r = .ok config) :
    Serves config files r (carryOut env config files r) := by
  obtain ⟨document, htext⟩ := exists_text_of_effective h
  refine ⟨fun hcommand => ?_, fun hcommand => ?_, fun hcommand => ?_⟩
  case refine_1 =>
    refine ⟨document, ?_, htext, fun files' workingDirectory path => load_of_text htext⟩
    rw [← showConfig_of_text htext files, carryOut]
    rcases hcommand with hcommand | hcommand <;> rw [hcommand]
  case refine_2 =>
    rw [carryOut, hcommand]
    exact validateDemo_eq files
  case refine_3 =>
    rw [carryOut, hcommand]
    exact demo_eq config files r

/-! ## The program -/

section

variable {arguments : List String} (hread : Request.ofArguments arguments = .run r)

include hread

theorem run_of_effective (h : effectiveConfig env files r = .ok config) :
    run env files arguments = carryOut env config files r := by
  rw [run, hread]
  dsimp only
  rw [h]

theorem run_of_fault {fault : ConfigFault} (h : effectiveConfig env files r = .error fault) :
    run env files arguments = .failure files "Failed to load configuration" := by
  rw [run, hread]
  dsimp only
  rw [h]

end

/-- Where no file was named, every command works under the configuration of the file at the usual
place or, whatever is wrong with that, under the default. Where a file was named, every command
works under its configuration or, if it does not load, fails without a word on the output. -/
theorem served_or_refused {arguments : List String} (env : Environment) (files : FileTree)
    (hread : Request.ofArguments arguments = .run r) :
    let o := run env files arguments
    (r.configPath = none → ∃ config, Usual env files config ∧
      effectiveConfig env files r = .ok config ∧ Serves config files r o) ∧
    ∀ path, r.configPath = some path →
      (∀ config, Config.load files env.workingDirectory path = .ok config →
        Serves config files r o) ∧
      ((∀ config, Config.load files env.workingDirectory path ≠ .ok config) →
        Refused files o ∧ o.files = files) := by
  intro o
  have hserves : ∀ config, effectiveConfig env files r = .ok config →
      Serves config files r o := by
    intro config heffective
    rw [show o = _ from run_of_effective hread heffective]
    exact serves_carryOut heffective
  refine ⟨fun hpath => ?_, fun path hpath => ⟨fun config hload => ?_, fun hfails => ?_⟩⟩
  · have heffective : effectiveConfig env files r = .ok (Config.loadUsual files
        env.workingDirectory (env.configHome.map Config.usualPath)) := by
      rw [effectiveConfig, hpath]
    exact ⟨_, usual_loadUsual env files, heffective, hserves _ heffective⟩
  · apply hserves config
    rw [effectiveConfig, hpath]
    exact hload
  · obtain ⟨fault, hload⟩ :
        ∃ fault, Config.load files env.workingDirectory path = .error fault := by
      cases hload : Config.load files env.workingDirectory path with
      | error fault => exact ⟨fault, rfl⟩
      | ok config => exact absurd hload (hfails config)
    have heffective : effectiveConfig env files r = .error fault := by
      rw [effectiveConfig, hpath]
      exact hload
    rw [show o = _ from run_of_fault hread heffective]
    exact ⟨refused_failure _ fun _ _ hentry => hentry, rfl⟩

/-- A configuration file whose bytes are no text. -/
def undecodable : FileTree := ⟨[(["h"], .directory), (["h", "agentplan"], .directory),
  (["h", "agentplan", "config.toml"], .bytes)]⟩

/-- With such a file at the usual place the default is shown and demonstrated; if it is named,
nothing is shown. -/
theorem served_or_refused_undecodable :
    let env : Environment := ⟨[], some "/h"⟩
    let named := run env undecodable ["--config", Config.usualPath "/h", "config", "show"]
    run env undecodable ["config", "show"] = .success undecodable "[runner]\n\n[policies]\n" ∧
      run env undecodable ["demo", "--flaky", "1"] = .success undecodable
        " processor hello world\nsummarizer 2 word(s), 11 char(s): hello world\n" ∧
      named.code ≠ 0 ∧ named.output = "" := by
  intro env named
  obtain ⟨-, -, hnames⟩ := steps_usualPath
  have hload : Config.load undecodable [] (Config.usualPath "/h") =
      .error (.unreadable (Config.usualPath "/h") .notText) := by
    simp only [Config.load, FileTree.read, FileTree.locate, hnames]
    cbv
  have hfails : ∀ c, Config.load undecodable [] (Config.usualPath "/h") ≠ .ok c := by
    intro c h
    rw [hload] at h
    cases h
  have hdefault : ∀ config, Usual env undecodable config → config = .default := by
    intro config husual
    cases husual with
    | loaded hhome hload' =>
      obtain rfl : "/h" = _ := Option.some.inj hhome
      exact absurd hload' (hfails config)
    | default hnone => rfl
  have hshow : Request.ofArguments ["config", "show"] =
      .run { Reading.initial with command := .configShow } := by
    cbv
  have hdemo : Request.ofArguments ["demo", "--flaky", "1"] =
      .run { Reading.initial with command := .demo, given := [.flaky], flaky := 1 } := by
    cbv
  have hlooks : ¬ (Reading.looksLikeOption (Config.usualPath "/h") = true ∨
      Config.usualPath "/h" = "") := by
    decide +kernel
  have hnamed : Request.ofArguments ["--config", Config.usualPath "/h", "config", "show"] =
      .run { Reading.initial with
        command := .configShow, configPath := some (Config.usualPath "/h") } := by
    rw [ofArguments_config, if_neg hlooks]
    cbv
  refine ⟨?_, ?_, ?_⟩
  · obtain ⟨config, husual, -, hserves⟩ := (served_or_refused env undecodable hshow).1 rfl
    obtain rfl := hdefault config husual
    obtain ⟨document, hshown, htext, -⟩ := hserves.shows (.inl rfl)
    obtain rfl : _ = document := Except.ok.inj (text_default.symm.trans htext)
    exact hshown
  · obtain ⟨config, husual, -, hserves⟩ := (served_or_refused env undecodable hdemo).1 rfl
    obtain rfl := hdefault config husual
    have houtputs : outputText (Demo.outputs .default 1 "hello world") =
        " processor hello world\nsummarizer 2 word(s), 11 char(s): hello world\n" := by
      decide +kernel
    rw [← houtputs]
    exact hserves.demonstrates rfl
  · obtain ⟨hrefused, -⟩ := ((served_or_refused env undecodable hnamed).2 _ rfl).2 hfails
    exact ⟨hrefused.code, hrefused.silent⟩

end Orchestration.CommandLine
