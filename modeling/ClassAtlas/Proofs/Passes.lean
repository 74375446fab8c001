/-
The two passes of an analysis.

Both passes go over the same files. The first one reads the names of the declared classes off the lines, the second one
cuts the lines into chunks and outlines each of them. They find the same names in the same order, because every chunk
starts at a line that declares a class and holds no other one. So the entries of a report name exactly the classes that
were registered, and the registry of a report can be built again from its entries (`passes_agree`).
-/
import ClassAtlas.Analysis
import ClassAtlas.Proofs.DeclarationLine

namespace ClassAtlas.Analysis

/-- the files of all projects in their order, each with the name of its project -/
def files (projects : List Project) : List (Text × Path) := projects.flatMap fun p => p.files.map fun f => (p.name, f)

/-- a file as both passes find it -/
def inputOf (reader : Reader) (f : Text × Path) : Input := ⟨f.1, f.2, reader f.2⟩

/-- the classes that the first pass registers, in order -/
def registered (reader : Reader) (projects : List Project) : List ClassId :=
  (files projects).flatMap fun f =>
    match reader f.2 with
    | .ok source =>
      (DeclaredNames.ofText source).classNames.map fun name => ⟨name, (DeclaredNames.ofText source).scope, f.1⟩
    | .error _ => []

/-- the registry with which the second pass resolves names -/
def registryOf (reader : Reader) (projects : List Project) : Registry := Registry.ofClasses (registered reader projects)

/-- the entries of one file in the report on projects -/
def block (reader : Reader) (projects : List Project) (f : Text × Path) : List ClassEntry :=
  entriesOf (registryOf reader projects) (inputOf reader f)

theorem inputs_eq (reader : Reader) (projects : List Project) :
    inputs reader projects = (files projects).map (inputOf reader) := by
  simp only [inputs, files, List.map_flatMap, List.map_map]
  rfl

theorem registered_eq (reader : Reader) (projects : List Project) :
    registered reader projects = (inputs reader projects).flatMap declared := by
  rw [inputs_eq, List.flatMap_map]
  rfl

theorem entries_runPasses (first second : Reader) (projects : List Project) :
    (runPasses first second projects).entries =
      (files projects).flatMap fun f => entriesOf (registryOf first projects) (inputOf second f) := by
  simp only [runPasses, registryOf, registered_eq, inputs_eq, List.flatMap_map]

theorem collisions_runPasses (first second : Reader) (projects : List Project) :
    (runPasses first second projects).collisions = (registryOf first projects).collisions := by
  simp only [runPasses, registryOf, registered_eq]

theorem entries_run (reader : Reader) (projects : List Project) :
    (run reader projects).entries = (files projects).flatMap (block reader projects) :=
  entries_runPasses reader reader projects

theorem collisions_run (reader : Reader) (projects : List Project) :
    (run reader projects).collisions = (registryOf reader projects).collisions :=
  collisions_runPasses reader reader projects

/-! ## Both passes find the same classes -/

theorem classNames_ofText (source : Text) :
    (DeclaredNames.ofText source).classNames = (FileOutline.ofText source).classes.map Outline.name := by
  simp only [DeclaredNames.ofText, FileOutline.ofText, Source.map_name_outlines]

theorem ids_entriesOf (r : Registry) (i : Input) : (entriesOf r i).map ClassEntry.id = declared i := by
  unfold entriesOf declared
  cases i.content with
  | error e => rfl
  | ok source =>
    simp only [Resolution.entries, declaredIn, classNames_ofText, List.map_map]
    rfl

theorem ids_run (reader : Reader) (projects : List Project) :
    (run reader projects).entries.map ClassEntry.id = (inputs reader projects).flatMap declared := by
  simp only [run, runPasses, List.map_flatMap, ids_entriesOf]

/-- **Both passes agree.** Read for its declarations alone, a source text has the namespace and the class names of its
outline. So the entries of a report are, one by one, the registered classes, and the registry built from them has the
collisions of the report. -/
theorem passes_agree :
    (∀ source, (DeclaredNames.ofText source).scope = (FileOutline.ofText source).scope ∧
      (DeclaredNames.ofText source).classNames = (FileOutline.ofText source).classes.map Outline.name) ∧
    ∀ reader projects, (run reader projects).entries.map ClassEntry.id = registered reader projects ∧
      (run reader projects).collisions =
        (Registry.ofClasses ((run reader projects).entries.map ClassEntry.id)).collisions := by
  refine ⟨fun source => ⟨rfl, classNames_ofText source⟩, ?_⟩
  intro reader projects
  rw [ids_run, ← registered_eq]
  exact ⟨rfl, collisions_run reader projects⟩

/-- declared names are not empty and hold no point -/
theorem isName_of_mem_classNames {source name : Text} (h : name ∈ (DeclaredNames.ofText source).classNames) :
    name ≠ [] ∧ '.' ∉ name := by
  obtain ⟨line, -, hline⟩ := List.mem_filterMap.1 h
  obtain ⟨found, hfound, rfl⟩ := Option.map_eq_some_iff.1 hline
  obtain ⟨hrun, -⟩ := Source.isRun_of_classMatch? hfound
  exact ⟨hrun.ne_nil, fun hp => absurd (hrun.nameChars '.' hp) (by decide)⟩

theorem name_of_declared {i : Input} {c : ClassId} (h : c ∈ declared i) : '.' ∉ c.name := by
  unfold declared at h
  split at h
  · obtain ⟨name, hname, rfl⟩ := List.mem_map.1 h
    exact (isName_of_mem_classNames hname).2
  · contradiction

end ClassAtlas.Analysis
