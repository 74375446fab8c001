/-
Files that cannot be read.

Such a file declares nothing in the first pass and has no entries in the second, so a report is that on the readable
files alone, apart from its failures and its number of files (`runPasses_isolated`). Each pass reports the file once for
every project and place that lists it, in the order of the files and with the error of that pass. The passes need not
find the same texts; it is enough that they fail on the same files.
-/
import Mathlib.Data.List.Forall2
import ClassAtlas.Proofs.Grouping
import ClassAtlas.Proofs.Passes

namespace ClassAtlas.Analysis

def readable (reader : Reader) (file : Path) : Bool := (reader file).isOk

/-- the projects with those of their files that pass the test -/
def keepFiles (keep : Path → Bool) (projects : List Project) : List Project :=
  projects.map fun p => { p with files := p.files.filter keep }

/-- the files that cannot be read, each with its project and as often as it is listed -/
def unreadable (reader : Reader) (projects : List Project) : List (Text × Path) :=
  (files projects).filter fun f => !readable reader f.2

/-- a failure tells of the file in this phase, with the error that the reader gave -/
structure Reports (reader : Reader) (phase : Phase) (f : Text × Path) (x : Failure) : Prop where
  project : x.project = f.1
  file : x.file = f.2
  phase : x.phase = phase
  message : ∃ e, reader f.2 = .error e ∧ x.message = e.message

theorem files_keepFiles (keep : Path → Bool) (projects : List Project) :
    files (keepFiles keep projects) = (files projects).filter fun f => keep f.2 := by
  simp only [files, keepFiles, List.flatMap_map, List.filter_flatMap, List.filter_map]
  rfl

theorem readable_eq_false_iff {reader : Reader} {file : Path} :
    readable reader file = false ↔ ∃ e, reader file = .error e := by
  unfold readable
  cases reader file with
  | ok source => simp [Except.isOk, Except.toBool]
  | error e => simp [Except.isOk, Except.toBool]

/-! ## Unreadable files give nothing -/

theorem declared_of_unreadable {reader : Reader} {f : Text × Path} (h : readable reader f.2 = false) :
    declared (inputOf reader f) = [] := by
  obtain ⟨e, he⟩ := readable_eq_false_iff.1 h
  simp only [declared, inputOf, he]

theorem entriesOf_of_unreadable {reader : Reader} {f : Text × Path} (h : readable reader f.2 = false) (r : Registry) :
    entriesOf r (inputOf reader f) = [] := by
  obtain ⟨e, he⟩ := readable_eq_false_iff.1 h
  simp only [entriesOf, inputOf, he]

/-- the registry is that of the readable files -/
theorem registryOf_keepFiles (reader : Reader) (projects : List Project) :
    registryOf reader (keepFiles (readable reader) projects) = registryOf reader projects := by
  have hregistered : registered reader (keepFiles (readable reader) projects) = registered reader projects := by
    rw [registered_eq, registered_eq, inputs_eq, inputs_eq, files_keepFiles, List.flatMap_map, List.flatMap_map]
    exact flatMap_filter_of_nil (fun f hf => declared_of_unreadable hf) (files projects)
  rw [registryOf, registryOf, hregistered]

/-- and the entries are those of the readable files -/
theorem entries_keepFiles {first second : Reader} (h : ∀ file, readable first file = readable second file)
    (projects : List Project) :
    (runPasses first second (keepFiles (readable first) projects)).entries =
      (runPasses first second projects).entries := by
  rw [entries_runPasses, entries_runPasses, files_keepFiles, registryOf_keepFiles]
  refine flatMap_filter_of_nil (fun f hf => ?_) (files projects)
  exact entriesOf_of_unreadable ((h f.2).symm.trans hf) _

/-! ## Failures -/

theorem reports_failures (reader : Reader) (phase : Phase) (projects : List Project) :
    List.Forall₂ (Reports reader phase) (unreadable reader projects)
      ((inputs reader projects).filterMap (failure? phase)) := by
  rw [unreadable, inputs_eq]
  induction files projects with
  | nil => exact .nil
  | cons f fs ih =>
    rw [List.map_cons]
    cases h : reader f.2 with
    | ok source =>
      have hread : readable reader f.2 = true := by simp [readable, h, Except.isOk, Except.toBool]
      have hnone : failure? phase (inputOf reader f) = none := by simp only [failure?, inputOf, h]
      rw [List.filter_cons_of_neg (by simp [hread]), List.filterMap_cons_none hnone]
      exact ih
    | error e =>
      have hread : readable reader f.2 = false := readable_eq_false_iff.2 ⟨e, h⟩
      have hsome : failure? phase (inputOf reader f) = some ⟨f.1, f.2, phase, e.message⟩ := by
        simp only [failure?, inputOf, h]
      rw [List.filter_cons_of_pos (by simp [hread]), List.filterMap_cons_some hsome]
      exact .cons ⟨rfl, rfl, rfl, e, h, rfl⟩ ih

theorem failures_keepFiles (reader : Reader) (phase : Phase) (projects : List Project) :
    (inputs reader (keepFiles (readable reader) projects)).filterMap (failure? phase) = [] := by
  have hreports := reports_failures reader phase (keepFiles (readable reader) projects)
  have hnone : unreadable reader (keepFiles (readable reader) projects) = [] := by
    rw [unreadable, files_keepFiles, List.filter_filter, List.filter_eq_nil_iff]
    intro f _
    simp
  rw [hnone] at hreports
  exact List.forall₂_nil_left_iff.1 hreports

/-! ## Reports -/

/-- **Unreadable files are isolated.** If both passes fail on the same files, the entries and the collisions of a report
are those of the report on the other files, which has no failures. The failures are one of the first pass for each
unreadable file in the order of the files, then one of the second pass for each of them. All files are counted. -/
theorem runPasses_isolated (first second : Reader) (h : ∀ file, readable first file = readable second file)
    (projects : List Project) :
    let report := runPasses first second projects
    let without := runPasses first second (keepFiles (readable first) projects)
    report.entries = without.entries ∧ report.collisions = without.collisions ∧ without.failures = [] ∧
    (∃ registering extracting, report.failures = registering ++ extracting ∧
      List.Forall₂ (Reports first .registration) (unreadable first projects) registering ∧
      List.Forall₂ (Reports second .extraction) (unreadable first projects) extracting) ∧
    report.fileCount = (files projects).length := by
  intro report without
  have hunreadable : unreadable first projects = unreadable second projects := by simp only [unreadable, h]
  have hregistration := failures_keepFiles first .registration projects
  have hextraction := failures_keepFiles second .extraction projects
  rw [← funext h] at hextraction
  refine ⟨(entries_keepFiles h projects).symm, ?_, ?_, ⟨_, _, rfl, reports_failures first _ projects, ?_⟩, ?_⟩
  · rw [collisions_runPasses, collisions_runPasses, registryOf_keepFiles]
  · simp only [without, runPasses, hregistration, hextraction, List.append_nil]
  · rw [hunreadable]
    exact reports_failures second _ projects
  · simp only [report, runPasses, inputs_eq, List.length_map]

/-- a file that cannot be read, listed by two projects, and one that changes between the passes -/
theorem runPasses_isolated_listed_twice :
    let first : Reader := fun path => if path.text = ['g'] then .error (.unregistered path) else .ok "class A : B {}"
    let second : Reader := fun path => if path.text = ['g'] then .error (.system path .notFound) else .ok "class A {}"
    let projects : List Project := [⟨['p'], [⟨['g']⟩, ⟨['f']⟩]⟩, ⟨['q'], [⟨['g']⟩]⟩]
    (∀ file, readable first file = readable second file) ∧
    unreadable first projects = [(['p'], ⟨['g']⟩), (['q'], ⟨['g']⟩)] ∧
    keepFiles (readable first) projects = [⟨['p'], [⟨['f']⟩]⟩, ⟨['q'], []⟩] ∧
    (runPasses first second projects).entries = (runPasses first second [⟨['p'], [⟨['f']⟩]⟩, ⟨['q'], []⟩]).entries := by
  intro first second projects
  have hsame : ∀ file, readable first file = readable second file := by
    intro file
    by_cases hg : file.text = ['g']
    · simp only [readable, first, second, if_pos hg]
      rfl
    · simp only [readable, first, second, if_neg hg]
      rfl
  exact ⟨hsame, by decide, by decide, (runPasses_isolated first second hsame projects).1⟩

end ClassAtlas.Analysis
