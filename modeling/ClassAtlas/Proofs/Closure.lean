/-
Reports are closed: a dependency inside the analysed projects is itself an entry.

The first pass registers exactly the classes that the second one lists (`ids_run`), and a name that is resolved means a
registered class or an external one. Hence no entry points to a class that nobody declared.
-/
import ClassAtlas.Proofs.Grouping
import ClassAtlas.Proofs.Passes
import ClassAtlas.Proofs.Resolution

namespace ClassAtlas.Analysis

theorem resolve?_of_dependency {r : Registry} {i : Input} {e : ClassEntry} (he : e ∈ entriesOf r i) {d : ClassId}
    (hd : d ∈ e.dependencies) : ∃ name scope imports, Resolution.resolve? r name scope imports = some d := by
  unfold entriesOf at he
  split at he
  · obtain ⟨o, -, rfl⟩ := List.mem_map.1 he
    obtain ⟨name, -, hname⟩ := List.mem_filterMap.1 (mem_distinct.1 hd)
    exact ⟨name, _, _, hname⟩
  · contradiction

/-- **No dangling dependency.** Every dependency of an entry is itself an entry, unless it is external. -/
theorem dependency_mem_ids (reader : Reader) (projects : List Project) {e : ClassEntry}
    (he : e ∈ (run reader projects).entries) {d : ClassId} (hd : d ∈ e.dependencies)
    (hp : d.project ≠ Resolution.externalProject) : ∃ e' ∈ (run reader projects).entries, e'.id = d := by
  obtain ⟨i, -, hi⟩ := List.mem_flatMap.1 he
  obtain ⟨name, scope, imports, hname⟩ := resolve?_of_dependency hi hd
  have hnames : ∀ c ∈ (inputs reader projects).flatMap declared, '.' ∉ c.name := by
    intro c hc
    obtain ⟨i, -, hi⟩ := List.mem_flatMap.1 hc
    exact name_of_declared hi
  have hmem := (Resolution.mem_of_resolve? hnames hname).resolve_right hp
  rw [← ids_run] at hmem
  exact List.mem_map.1 hmem

/-- in a single file, whatever a name of a class is resolved to is a dependency of one of its entries -/
theorem exists_dependency_single {project source : Text} {file : Path} {o : Outline} {name : Text} {d : ClassId}
    (ho : o ∈ (FileOutline.ofText source).classes) (hn : name ∈ Resolution.referredNames o)
    (hd : Resolution.resolve? (Registry.ofClasses (declaredIn project source)) name (FileOutline.ofText source).scope
      (FileOutline.ofText source).imports = some d) :
    ∃ e ∈ (run (fun _ => .ok source) [⟨project, [file]⟩]).entries, d ∈ e.dependencies := by
  have hrun : (run (fun _ => .ok source) [⟨project, [file]⟩]).entries =
      Resolution.entries (Registry.ofClasses (declaredIn project source)) project file (FileOutline.ofText source) := by
    simp [run, runPasses, inputs, declared, entriesOf]
  rw [hrun]
  refine ⟨_, List.mem_map_of_mem ho, ?_⟩
  exact mem_distinct.2 (List.mem_filterMap.2 ⟨name, mem_distinct.2 hn, hd⟩)

/-- a class and its base in one file: the base is found, and it is an entry -/
theorem dependency_mem_ids_base :
    let report := run (fun _ => .ok "class A : B {} class B {}") [⟨['p'], [⟨['f']⟩]⟩]
    ∃ e ∈ report.entries, ⟨['B'], [], ['p']⟩ ∈ e.dependencies ∧ ∃ e' ∈ report.entries, e'.id = ⟨['B'], [], ['p']⟩ := by
  have hdeclared : declaredIn ['p'] "class A : B {} class B {}" = [⟨['A'], [], ['p']⟩, ⟨['B'], [], ['p']⟩] := by
    decide +kernel
  have hnames : [['B']] ∈ (FileOutline.ofText "class A : B {} class B {}").classes.map Resolution.referredNames := by
    decide +kernel
  obtain ⟨o, ho, hB⟩ := List.mem_map.1 hnames
  have hresolve : Resolution.resolve? (Registry.ofClasses (declaredIn ['p'] "class A : B {} class B {}")) ['B']
      (FileOutline.ofText "class A : B {} class B {}").scope (FileOutline.ofText "class A : B {} class B {}").imports =
      some ⟨['B'], [], ['p']⟩ := by
    rw [hdeclared, Resolution.resolve?_bare (by decide) (by decide) (by decide)]
    decide +kernel
  obtain ⟨e, he, hd⟩ := exists_dependency_single ho (by simp [hB]) hresolve
  exact ⟨e, he, hd, dependency_mem_ids _ _ he hd (by decide)⟩

end ClassAtlas.Analysis
