/-
The order of the files does not matter as long as no names collide.

Without collisions every key has one owner, so the registry is the set of all insertions and forgets their order
(`lookup?_ofClasses_perm`). The entries of a file depend on the registry only through what its keys hold
(`entriesOf_congr`). So each file has the same entries in whatever order the files are given, and the reports differ by
the order of these blocks alone (`run_perm`).
-/
import ClassAtlas.Proofs.History
import ClassAtlas.Proofs.Passes

namespace ClassAtlas

/-! ## Registries that hold the same -/

namespace Registry

theorem history_perm {cs cs' : List ClassId} (h : cs.Perm cs') : (history cs).Perm (history cs') :=
  h.flatMap_right insertions

theorem Unambiguous.perm {h h' : List (Text × Owner)} (hu : Unambiguous h) (hp : h.Perm h') : Unambiguous h' := by
  intro i hi j hj
  exact hu i (hp.mem_iff.2 hi) j (hp.mem_iff.2 hj)

theorem collisions_ofClasses_perm {cs cs' : List ClassId} (hp : cs.Perm cs') (h : (ofClasses cs).collisions = []) :
    (ofClasses cs').collisions = [] := by
  rw [ofClasses_eq, collisions_eq_nil_iff] at h ⊢
  exact h.perm (history_perm hp)

/-- without collisions the order of the registrations is forgotten -/
theorem lookup?_ofClasses_perm {cs cs' : List ClassId} (hp : cs.Perm cs') (h : (ofClasses cs).collisions = [])
    (key : Text) : (ofClasses cs).lookup? key = (ofClasses cs').lookup? key := by
  rw [ofClasses_eq, collisions_eq_nil_iff] at h
  have h' := h.perm (history_perm hp)
  rw [ofClasses_eq, ofClasses_eq]
  ext owner
  calc (ofHistory (history cs)).lookup? key = some owner
      ↔ (key, owner) ∈ history cs := lookup?_eq_some_iff h
    _ ↔ (key, owner) ∈ history cs' := (history_perm hp).mem_iff
    _ ↔ (ofHistory (history cs')).lookup? key = some owner := (lookup?_eq_some_iff h').symm

end Registry

/-! ## What the entries of a file depend on -/

section Congruence

variable {r r' : Registry} (h : ∀ key, r.lookup? key = r'.lookup? key)

include h

theorem Resolution.resolve?_congr (name fileScope : Text) (imports : List Text) :
    resolve? r name fileScope imports = resolve? r' name fileScope imports := by
  simp only [resolve?, resolveDotted, resolveBare, globalOwner?, h]

theorem Analysis.entriesOf_congr (i : Input) : entriesOf r i = entriesOf r' i := by
  unfold entriesOf Resolution.entries Resolution.dependencies
  simp only [Resolution.resolve?_congr h]

end Congruence

namespace Analysis

theorem registered_perm (reader : Reader) {projects projects' : List Project}
    (h : (files projects).Perm (files projects')) : (registered reader projects).Perm (registered reader projects') :=
  h.flatMap_right _

/-- **The order of the files does not matter without collisions.** If the files of two lists of projects are the same
up to their order and the report on the first has no collisions, then the report on the second has none. Both reports
are made of the blocks of their files, each file has the same block in both, and so the reports are the same up to the
order of these blocks. -/
theorem run_perm (reader : Reader) {projects projects' : List Project}
    (hfiles : (files projects).Perm (files projects')) (hcollisions : (run reader projects).collisions = []) :
    (run reader projects').collisions = [] ∧
    (run reader projects).entries = ((files projects).map (block reader projects)).flatten ∧
    (run reader projects').entries = ((files projects').map (block reader projects')).flatten ∧
    (∀ f, block reader projects f = block reader projects' f) ∧
    ((files projects).map (block reader projects)).Perm ((files projects').map (block reader projects')) ∧
    (run reader projects).entries.Perm (run reader projects').entries := by
  rw [collisions_run] at hcollisions
  have hregistered := registered_perm reader hfiles
  have hblock : block reader projects = block reader projects' := by
    funext f
    exact entriesOf_congr (Registry.lookup?_ofClasses_perm hregistered hcollisions) (inputOf reader f)
  have hblocks :
      ((files projects).map (block reader projects)).Perm ((files projects').map (block reader projects')) := by
    rw [hblock]
    exact hfiles.map _
  simp only [entries_run, List.flatMap_def, collisions_run]
  exact ⟨Registry.collisions_ofClasses_perm hregistered hcollisions, trivial, trivial, congrFun hblock, hblocks,
    hblocks.flatten⟩

/-- a class and its base in two files of one namespace, given in either order and by one project or two -/
theorem run_perm_swapped :
    let reader : Reader := fun path =>
      if path.text = ['f'] then .ok "namespace N; class A : B {}" else .ok "namespace N; class B {}"
    let together := run reader [⟨['p'], [⟨['f']⟩, ⟨['g']⟩]⟩]
    let apart := run reader [⟨['p'], [⟨['g']⟩]⟩, ⟨['p'], [⟨['f']⟩]⟩]
    together.collisions = [] ∧ apart.collisions = [] ∧ together.entries.Perm apart.entries := by
  intro reader together apart
  have hregistered : registered reader [⟨['p'], [⟨['f']⟩, ⟨['g']⟩]⟩] =
      [⟨['A'], ['N'], ['p']⟩, ⟨['B'], ['N'], ['p']⟩] := by
    decide +kernel
  have hcollisions : together.collisions = [] := by
    rw [collisions_run, registryOf, hregistered, Registry.ofClasses_eq, Registry.collisions_eq_nil_iff]
    decide
  have hfiles : (files [⟨['p'], [⟨['f']⟩, ⟨['g']⟩]⟩]).Perm (files [⟨['p'], [⟨['g']⟩]⟩, ⟨['p'], [⟨['f']⟩]⟩]) := by
    decide
  obtain ⟨hnone, -, -, -, -, hentries⟩ := run_perm reader hfiles hcollisions
  exact ⟨hcollisions, hnone, hentries⟩

end Analysis

end ClassAtlas
