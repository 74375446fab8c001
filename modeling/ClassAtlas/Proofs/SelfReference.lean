/-
Classes that depend on themselves.

A class leaves out the references that bear its own name, before any name is resolved. A name with a point is another
name, even if it means the same class: a class that refers to itself under its namespace depends on itself, as long as
that name means it. It does if the last class that is registered under that name in that namespace has the identity of
the class, that is, is of the same project (`self_dependency_iff`). No other spelling does that: question marks, array
ranks, type arguments and tuples around the bare name are all taken off before the names are compared.
-/
import ClassAtlas.Proofs.Grouping
import ClassAtlas.Proofs.Passes
import ClassAtlas.Proofs.Resolution

namespace ClassAtlas

/-! ## Names that mean a given class -/

namespace Resolution

open Registry (ofClasses lastIn eq_of_lastIn)

theorem dottedMeaning_name (cs : List ClassId) (scope last : Text) :
    (dottedMeaning cs scope last).name = last ∧ (dottedMeaning cs scope last).scope = scope := by
  unfold dottedMeaning
  split
  · exact ⟨rfl, rfl⟩
  · cases hc : lastIn cs scope last with
    | none => exact ⟨rfl, rfl⟩
    | some c =>
      obtain ⟨-, hs, hn⟩ := eq_of_lastIn hc
      exact ⟨hn, hs⟩

theorem bareMeaning_name (cs : List ClassId) (name fileScope : Text) (imports : List Text) :
    (bareMeaning cs name fileScope imports).name = name := by
  unfold bareMeaning
  cases hf : inFirstScope? cs name fileScope imports with
  | some c => exact (name_of_inFirstScope? hf).2
  | none =>
    cases hg : global? cs name with
    | some c => exact (name_of_global? hg).2
    | none => rfl

/-- a name that is not the bare name of a class means the class only if it is its name in its scope -/
theorem resolve?_eq_some_iff {cs : List ClassId} (h : ∀ c ∈ cs, '.' ∉ c.name) {c : ClassId} (hc : c.name ≠ [])
    (hdot : '.' ∉ c.name) {name : Text} (hn : name ≠ c.name) (fileScope : Text) (imports : List Text) :
    resolve? (ofClasses cs) name fileScope imports = some c ↔
      name = c.scope ++ '.' :: c.name ∧ dottedMeaning cs c.scope c.name = c := by
  constructor
  · intro hmeant
    by_cases hp : '.' ∈ name
    · obtain ⟨scope, last, rfl, hl⟩ := Text.exists_last hp
      by_cases hne : last = []
      · rw [hne, resolve?_endsWithPoint] at hmeant
        contradiction
      · rw [resolve?_dotted h scope hl hne] at hmeant
        obtain rfl := Option.some.inj hmeant
        obtain ⟨hname, hscope⟩ := dottedMeaning_name cs scope last
        rw [hname, hscope]
        exact ⟨rfl, rfl⟩
    · by_cases hne : name = []
      · rw [hne, resolve?_nil] at hmeant
        contradiction
      · rw [resolve?_bare h hp hne] at hmeant
        obtain rfl := Option.some.inj hmeant
        exact absurd (bareMeaning_name cs name fileScope imports).symm hn
  · rintro ⟨rfl, hmeaning⟩
    rw [resolve?_dotted h c.scope hdot hc, hmeaning]

theorem mem_dependencies {r : Registry} {file : FileOutline} {o : Outline} {d : ClassId} :
    d ∈ dependencies r file o ↔ ∃ name ∈ referredNames o, resolve? r name file.scope file.imports = some d := by
  simp only [dependencies, mem_distinct, List.mem_filterMap]

theorem mem_referredNames {o : Outline} {name : Text} :
    name ∈ referredNames o ↔ (∃ t ∈ o.references, ∃ n ∈ t.names, TypeTree.nominalName n = name) ∧
      Vocabulary.isStandardType name = false ∧ name ≠ o.name := by
  simp only [referredNames, List.mem_filter, List.mem_map, List.mem_flatMap, Bool.not_eq_true', Bool.or_eq_false_iff,
    beq_eq_false_iff_ne]
  constructor
  · rintro ⟨⟨n, ⟨t, ht, hn⟩, rfl⟩, hother⟩
    exact ⟨⟨t, ht, n, hn, rfl⟩, hother⟩
  · rintro ⟨⟨t, ht, n, hn, rfl⟩, hother⟩
    exact ⟨⟨n, ⟨t, ht, hn⟩, rfl⟩, hother⟩

/-- the dotted name of a registered class means that class exactly if the last one with its name and scope is equal to
it; without a scope it means an external class -/
theorem dottedMeaning_eq_iff {cs : List ClassId} {c : ClassId} (hc : c ∈ cs) :
    dottedMeaning cs c.scope c.name = c ↔
      if c.scope = [] then c.project = externalProject else lastIn cs c.scope c.name = some c := by
  unfold dottedMeaning
  split
  · rename_i hs
    rw [Option.getD_none]
    constructor
    · intro he
      exact (congrArg ClassId.project he).symm
    · intro hp
      rw [← hp]
  · cases hlast : lastIn cs c.scope c.name with
    | none =>
      have hnone := List.filter_eq_nil_iff.1 (List.getLast?_eq_none_iff.1 hlast) c hc
      simp at hnone
    | some d => rw [Option.getD_some, Option.some.injEq]

end Resolution

/-! ## Classes of a report -/

namespace Analysis

open Resolution (externalProject)

/-- a class where it is declared: its project and path, the outline of its file and its own -/
structure Declaration where
  project : Text
  path : Path
  file : FileOutline
  outline : Outline

namespace Declaration

def id (d : Declaration) : ClassId := ⟨d.outline.name, d.file.scope, d.project⟩

/-- the name of the class after its namespace and a point -/
def dottedName (d : Declaration) : Text := d.file.scope ++ '.' :: d.outline.name

/-- one of the types that the class refers to is written with the dotted name of the class -/
def NamesItself (d : Declaration) : Prop :=
  ∃ t ∈ d.outline.references, ∃ n ∈ t.names, TypeTree.nominalName n = d.dottedName

/-- the entry of the class -/
def entry (r : Registry) (d : Declaration) : ClassEntry :=
  ⟨d.id, d.path, Resolution.dependencies r d.file d.outline⟩

end Declaration

/-- the classes of the files that can be read, in order -/
def declarations (reader : Reader) (projects : List Project) : List Declaration :=
  (files projects).flatMap fun f =>
    match reader f.2 with
    | .ok source => (FileOutline.ofText source).classes.map fun o => ⟨f.1, f.2, FileOutline.ofText source, o⟩
    | .error _ => []

theorem entries_eq_declarations (reader : Reader) (projects : List Project) :
    (run reader projects).entries =
      (declarations reader projects).map (Declaration.entry (registryOf reader projects)) := by
  rw [entries_run, declarations, List.map_flatMap]
  congr 1
  funext f
  unfold block entriesOf inputOf
  cases reader f.2 with
  | error e => rfl
  | ok source =>
    simp only [Resolution.entries, List.map_map]
    rfl

theorem entry_mem_entries {reader : Reader} {projects : List Project} {d : Declaration}
    (h : d ∈ declarations reader projects) : d.entry (registryOf reader projects) ∈ (run reader projects).entries := by
  rw [entries_eq_declarations]
  exact List.mem_map_of_mem h

theorem isName_of_mem_declarations {reader : Reader} {projects : List Project} {d : Declaration}
    (h : d ∈ declarations reader projects) : d.outline.name ≠ [] ∧ '.' ∉ d.outline.name := by
  obtain ⟨f, -, hf⟩ := List.mem_flatMap.1 h
  split at hf
  · rename_i source _
    obtain ⟨o, ho, rfl⟩ := List.mem_map.1 hf
    have hname : o.name ∈ (DeclaredNames.ofText source).classNames := by
      rw [classNames_ofText]
      exact List.mem_map_of_mem ho
    exact isName_of_mem_classNames hname
  · contradiction

theorem id_mem_registered {reader : Reader} {projects : List Project} {d : Declaration}
    (h : d ∈ declarations reader projects) : d.id ∈ registered reader projects := by
  rw [registered_eq, ← ids_run, entries_eq_declarations, List.map_map]
  exact List.mem_map_of_mem h

theorem name_of_registered {reader : Reader} {projects : List Project} {c : ClassId}
    (h : c ∈ registered reader projects) : '.' ∉ c.name := by
  rw [registered_eq] at h
  obtain ⟨i, -, hi⟩ := List.mem_flatMap.1 h
  exact name_of_declared hi

/-- the dependencies of a class hold the class itself exactly if one of its references is its dotted name, and this
means the class -/
theorem id_mem_dependencies_iff {reader : Reader} {projects : List Project} {d : Declaration}
    (h : d ∈ declarations reader projects) :
    d.id ∈ (d.entry (registryOf reader projects)).dependencies ↔ d.dottedName ∈ Resolution.referredNames d.outline ∧
      Resolution.dottedMeaning (registered reader projects) d.file.scope d.outline.name = d.id := by
  obtain ⟨hne, hdot⟩ := isName_of_mem_declarations h
  have hregistered : ∀ c ∈ registered reader projects, '.' ∉ c.name := fun c hc => name_of_registered hc
  have hresolve : ∀ name ∈ Resolution.referredNames d.outline,
      Resolution.resolve? (registryOf reader projects) name d.file.scope d.file.imports = some d.id ↔
        name = d.dottedName ∧
          Resolution.dottedMeaning (registered reader projects) d.file.scope d.outline.name = d.id := by
    intro name hname
    have hother : name ≠ d.id.name := (Resolution.mem_referredNames.1 hname).2.2
    exact Resolution.resolve?_eq_some_iff hregistered hne hdot hother d.file.scope d.file.imports
  rw [Declaration.entry, Resolution.mem_dependencies]
  constructor
  · rintro ⟨name, hname, hmeant⟩
    obtain ⟨rfl, hself⟩ := (hresolve name hname).1 hmeant
    exact ⟨hname, hself⟩
  · rintro ⟨hname, hself⟩
    exact ⟨d.dottedName, hname, (hresolve _ hname).2 ⟨rfl, hself⟩⟩

/-- **When a class depends on itself.** The entries of a report are those of the classes that its files declare, one by
one. An entry lists its own class exactly if the class refers to itself by its name after its namespace and a point, no
standard type is written so, and the last class that is registered under its name in its namespace has its identity, as
a later part of the same class has. Outside any namespace nothing stands before the point, and such a name means a class
of the external project. -/
theorem self_dependency_iff (reader : Reader) (projects : List Project) :
    (run reader projects).entries =
      (declarations reader projects).map (Declaration.entry (registryOf reader projects)) ∧
    ∀ d ∈ declarations reader projects, d.id ∈ (d.entry (registryOf reader projects)).dependencies ↔
      d.NamesItself ∧ Vocabulary.isStandardType d.dottedName = false ∧
        if d.file.scope = [] then d.project = externalProject
        else Registry.lastIn (registered reader projects) d.file.scope d.outline.name = some d.id := by
  refine ⟨entries_eq_declarations reader projects, fun d hd => ?_⟩
  have hdotted : d.dottedName ≠ d.outline.name := fun he =>
    (isName_of_mem_declarations hd).2 (he ▸ by simp [Declaration.dottedName])
  have hmeaning := Resolution.dottedMeaning_eq_iff (id_mem_registered hd)
  rw [id_mem_dependencies_iff hd, Resolution.mem_referredNames, and_assoc, and_assoc]
  refine and_congr Iff.rfl (and_congr Iff.rfl ?_)
  rw [and_iff_right hdotted]
  exact hmeaning

/-- a class that has a field of its own type, written with its namespace -/
theorem exists_dottedName_field :
    ∃ d ∈ declarations (fun _ => .ok "namespace A; class C { A.C next; }") [⟨['p'], [⟨['f']⟩]⟩],
      d.id = ⟨['C'], ['A'], ['p']⟩ ∧ d.dottedName ∈ Resolution.referredNames d.outline := by
  have hread : (declarations (fun _ => .ok "namespace A; class C { A.C next; }") [⟨['p'], [⟨['f']⟩]⟩]).map
      (fun d => (d.id, Resolution.referredNames d.outline)) = [(⟨['C'], ['A'], ['p']⟩, [['A', '.', 'C']])] := by
    decide +kernel
  obtain ⟨d, hd, he⟩ := List.mem_map.1 (hread ▸ List.mem_singleton_self _)
  obtain ⟨hid, hnames⟩ := Prod.mk.inj he
  refine ⟨d, hd, hid, ?_⟩
  have hdotted : d.dottedName = d.id.scope ++ '.' :: d.id.name := rfl
  rw [hdotted, hid, hnames]
  exact List.mem_singleton_self _

/-- the class of the field is the class itself -/
theorem self_dependency_iff_field :
    let reader : Reader := fun _ => .ok "namespace A; class C { A.C next; }"
    ∃ d ∈ declarations reader [⟨['p'], [⟨['f']⟩]⟩],
      d.id ∈ (d.entry (registryOf reader [⟨['p'], [⟨['f']⟩]⟩])).dependencies := by
  obtain ⟨d, hd, hid, hname⟩ := exists_dottedName_field
  obtain ⟨hself, hstandard, -⟩ := Resolution.mem_referredNames.1 hname
  refine ⟨d, hd, ((self_dependency_iff _ _).2 d hd).2 ⟨hself, hstandard, ?_⟩⟩
  have hscope : d.file.scope = ['A'] := congrArg ClassId.scope hid
  have hclass : d.outline.name = ['C'] := congrArg ClassId.name hid
  rw [hid, hscope, hclass, if_neg (by decide)]
  decide +kernel

/-- so there are classes that depend on themselves -/
theorem self_dependency_not_excluded :
    ¬ ∀ (reader : Reader) (projects : List Project), ∀ e ∈ (run reader projects).entries, e.id ∉ e.dependencies := by
  intro h
  obtain ⟨d, hd, hid, hname⟩ := exists_dottedName_field
  refine h _ _ _ (entry_mem_entries hd) ((id_mem_dependencies_iff hd).2 ⟨hname, ?_⟩)
  have hscope : d.file.scope = ['A'] := congrArg ClassId.scope hid
  have hclass : d.outline.name = ['C'] := congrArg ClassId.name hid
  rw [hid, hscope, hclass]
  decide +kernel

end Analysis

end ClassAtlas
