import Mathlib
import Orchestration.Proofs.Config.Bounds
import Orchestration.Proofs.Config.Files

/-!
# Configurations round trip

A configuration that can be written is read as itself, from its text and from the file where it was
saved; one that cannot be written leaves the files alone. Whatever has been read can be written.
-/

namespace Orchestration.Config

/-- What becomes of a configuration when it is written and read. -/
structure RoundTrips (c : Config) : Prop where
  /-- It can be rendered exactly if no integer field is above the largest signed number of 64 bits. -/
  renders : (∃ document, c.text = .ok document) ↔ ∀ n ∈ c.integers, n ≤ 2 ^ 63 - 1
  /-- The text is read as the configuration. -/
  parses : ∀ document, c.text = .ok document → ofToml? document = some c
  /-- It is saved wherever its text can be. -/
  saves : ∀ (document : String) (files files' : FileTree) (workingDirectory : Place) (path : String),
    c.text = .ok document → files.saving workingDirectory path document = (.ok (), files') →
      c.saving files workingDirectory path = (.ok (), files')
  /-- What has been saved at a path is loaded from there. -/
  loads : ∀ (files files' : FileTree) (workingDirectory : Place) (path : String),
    c.saving files workingDirectory path = (.ok (), files') →
      load files' workingDirectory path = .ok c
  /-- Where rendering fails, saving fails in the same way and no file changes. -/
  keepsFiles : ∀ (fault : ConfigFault) (files : FileTree) (workingDirectory : Place) (path : String),
    c.text = .error fault → c.saving files workingDirectory path = (.error fault, files)
  /-- If some document is read as it, it can be rendered, the rendering is read as it again, and
  rendering what is read there gives the same text. -/
  settles : ∀ document, ofToml? document = some c → ∃ rendering, c.text = .ok rendering ∧
    ofToml? rendering = some c ∧ ∀ again, ofToml? rendering = some again → again.text = .ok rendering

theorem text_eq_ok_iff {c : Config} {document : String} :
    c.text = .ok document ↔ c.toToml? = some document := by
  unfold text
  cases c.toToml? <;> simp

theorem exists_text_iff (c : Config) :
    (∃ document, c.text = .ok document) ↔ ∀ n ∈ c.integers, n ≤ Toml.maxInteger := by
  simp only [text_eq_ok_iff, ← Option.isSome_iff_exists, isSome_toToml?_iff]

/-- What has been saved is loaded. -/
theorem load_of_saving {c : Config} {files files' : FileTree} {workingDirectory : Place}
    {path : String} (h : c.saving files workingDirectory path = (.ok (), files')) :
    load files' workingDirectory path = .ok c := by
  cases hc : c.toToml? with
  | none =>
    rw [saving_of_none hc] at h
    cases h
  | some document =>
    have hread := FileTree.read_of_saving ((saving_of_some hc).1 h)
    rw [load, hread]
    dsimp only
    rw [ofToml?_toToml? hc]

/-- Every configuration survives being written and read. -/
theorem round_trip (c : Config) : c.RoundTrips where
  renders := exists_text_iff c
  parses document h := ofToml?_toToml? (text_eq_ok_iff.1 h)
  saves document files files' workingDirectory path h hfiles :=
    (saving_of_some (text_eq_ok_iff.1 h)).2 hfiles
  loads files files' workingDirectory path := load_of_saving
  keepsFiles fault files workingDirectory path h := by
    unfold saving
    rw [h]
  settles document h := by
    obtain ⟨rendering, hrendering⟩ := (exists_text_iff c).2 (integers_le_of_ofToml? h)
    have hread := ofToml?_toToml? (text_eq_ok_iff.1 hrendering)
    refine ⟨rendering, hrendering, hread, fun again hagain => ?_⟩
    obtain rfl : c = again := Option.some.inj (hread.symm.trans hagain)
    exact hrendering

/-- Waits that grow by a factor that is no number. -/
def strayGrowth : Config := ⟨⟨none⟩, ⟨some ⟨5, 10, some .nan, none⟩, some 1500⟩⟩

def strayText : String := "[runner]\n\n[policies]\ntimeout_ms = 1500\n\n[policies.retry]
max_attempts = 5\nbackoff_ms = 10\nbackoff_multiplier = nan\n"

/-- The files once that configuration has been saved as `b` in a new directory `a`. -/
def strayFiles : FileTree := ⟨[(["a"], .directory), (["a", "b"], .text strayText)]⟩

theorem round_trip_strayGrowth :
    ofToml? strayText = some strayGrowth ∧
    strayGrowth.saving .empty [] "a/b" = (.ok (), strayFiles) ∧
    load strayFiles [] "a/b" = .ok strayGrowth ∧
    ∀ again, ofToml? strayText = some again → again.text = .ok strayText := by
  have h := round_trip strayGrowth
  have htext : strayGrowth.text = .ok strayText := by decide +kernel
  have hfiles : ∀ document, FileTree.empty.saving [] "a/b" document =
      (.ok (), ⟨[(["a"], .directory), (["a", "b"], .text document)]⟩) := by
    intro document
    cbv
  have hread := h.parses strayText htext
  have hsaved := h.saves strayText .empty strayFiles [] "a/b" htext (hfiles strayText)
  obtain ⟨rendering, hrendering, -, hagain⟩ := h.settles strayText hread
  obtain rfl : strayText = rendering := Except.ok.inj (htext.symm.trans hrendering)
  exact ⟨hread, hsaved, h.loads .empty strayFiles [] "a/b" hsaved, hagain⟩

end Orchestration.Config
