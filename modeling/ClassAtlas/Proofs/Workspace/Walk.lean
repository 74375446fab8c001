/-
The walk through a tree.

`filesBelow` finds the files that can be reached: every directory on the way has a path that is not too long, and no
directory below the first is one that is passed over (`Reached`, `mem_filesBelow`). It finds them in the order of the
components of their paths, each once (`pairwise_filesBelow`).
-/
import ClassAtlas.Proofs.Grouping
import ClassAtlas.Proofs.Sorting
import ClassAtlas.Proofs.Workspace.Tree
import ClassAtlas.Workspace.Discovery

namespace ClassAtlas.Discovery

open ClassAtlas.Path (descend)

/-- hidden directories, and those that hold build products or packages -/
def IsSkipped (name : Text) : Prop :=
  ['.'] <+: name ∨ name = "bin".toList ∨ name = "obj".toList ∨ name = "node_modules".toList ∨ name = "packages".toList

theorem isPassedOver_eq_false {name : Text} : isPassedOver name = false ↔ ¬ IsSkipped name := by
  have hhidden : ['.'] <+: name ↔ name.head? = some '.' := by
    cases name with
    | nil => simp
    | cons c name => simp [List.cons_prefix_cons, eq_comm]
  rw [← Bool.not_eq_true, isPassedOver, IsSkipped, hhidden, Bool.or_eq_true, beq_iff_eq, List.contains_iff_mem]
  simp only [passedOver, List.mem_cons, List.not_mem_nil, or_false]

/-- the directory at `above`, seen from the node `t`, holds a file of this name -/
def HoldsFile (t : Tree) (above : Place) (name : Text) : Prop :=
  ∃ content, t.node? (above ++ [name]) = some (.file content)

/-- a file below a directory with the path `p` can be reached -/
structure Reached (p : Path) (t : Tree) (above : Place) (name : Text) : Prop where
  isFile : HoldsFile t above name
  /-- no directory between the two is passed over -/
  entered : ∀ directory ∈ above, ¬ IsSkipped directory
  /-- the directory and those between the two can be opened -/
  opened : ∀ q, q <+: above → (p.descend q).isTooLong = false

/-- no directory below one with the path `p` has a path that is too long, nor has that one -/
def IsOpenable (p : Path) (t : Tree) : Prop :=
  ∀ q entries, t.node? q = some (.directory entries) → (p.descend q).isTooLong = false

/-- where all directories can be opened, the files that are reached are those that no skipped directory hides -/
theorem reached_iff_of_isOpenable {p : Path} {t : Tree} (h : IsOpenable p t) {above : Place} {name : Text} :
    Reached p t above name ↔ HoldsFile t above name ∧ ∀ directory ∈ above, ¬ IsSkipped directory := by
  refine ⟨fun hr => ⟨hr.isFile, hr.entered⟩, fun ⟨hfile, hentered⟩ => ⟨hfile, hentered, ?_⟩⟩
  rintro q ⟨rest, rfl⟩
  obtain ⟨content, hcontent⟩ := hfile
  rw [List.append_assoc] at hcontent
  obtain ⟨next, others, hnext⟩ : ∃ next others, rest ++ [name] = next :: others :=
    List.exists_cons_of_ne_nil (by simp)
  rw [hnext] at hcontent
  obtain ⟨entries, hdirectory⟩ := Tree.exists_directory_of_node? hcontent
  exact h q entries hdirectory

theorem filesOfEntries_eq_map (p : Path) (entries : List (Text × Tree)) :
    filesOfEntries p entries = entries.map fun e =>
      (e.1, if e.2.isDirectory && isPassedOver e.1 then [] else filesBelow (p.child e.1) e.2) := by
  induction entries with
  | nil => rfl
  | cons e entries ih => rw [filesOfEntries, ih, List.map_cons]

theorem mem_filesBelow_directory {p f : Path} {entries : List (Text × Tree)} :
    f ∈ filesBelow p (.directory entries) ↔ p.isTooLong = false ∧
      ∃ e ∈ entries, (e.2.isDirectory && isPassedOver e.1) = false ∧ f ∈ filesBelow (p.child e.1) e.2 := by
  rw [filesBelow, filesOfEntries_eq_map]
  by_cases hp : p.isTooLong = true
  · simp [hp]
  · simp only [if_neg hp, List.mem_flatMap, List.mem_mergeSort, List.mem_map]
    constructor
    · rintro ⟨_, ⟨e, he, rfl⟩, hf⟩
      by_cases hpass : (e.2.isDirectory && isPassedOver e.1) = true
      · simp [hpass] at hf
      · exact ⟨by simpa using hp, e, he, by simpa using hpass, by simpa [hpass] using hf⟩
    · rintro ⟨-, e, he, hpass, hf⟩
      exact ⟨_, ⟨e, he, rfl⟩, by simpa [hpass] using hf⟩

section Entries

variable {p : Path} {entries : List (Text × Tree)} (h : (entries.map Prod.fst).Nodup)

include h

theorem reached_nil {name : Text} :
    Reached p (.directory entries) [] name ↔ p.isTooLong = false ∧ ∃ content, (name, .file content) ∈ entries := by
  have hnode : ∀ content, (Tree.directory entries).node? ([] ++ [name]) = some (.file content) ↔
      (name, .file content) ∈ entries := by
    intro content
    rw [← Tree.entry?_eq_some_iff h, List.nil_append, Tree.node?_cons]
    simp [Tree.node?]
  constructor
  · rintro ⟨⟨content, hfile⟩, -, hopened⟩
    exact ⟨hopened [] List.nil_prefix, content, (hnode content).1 hfile⟩
  · rintro ⟨hp, content, hmem⟩
    refine ⟨⟨content, (hnode content).2 hmem⟩, fun _ hd => absurd hd List.not_mem_nil, fun q hq => ?_⟩
    obtain rfl := List.prefix_nil.1 hq
    exact hp

theorem reached_cons {directory name : Text} {above : Place} :
    Reached p (.directory entries) (directory :: above) name ↔
      p.isTooLong = false ∧ ¬ IsSkipped directory ∧
        ∃ t, (directory, t) ∈ entries ∧ Reached (p.child directory) t above name := by
  constructor
  · rintro ⟨⟨content, hfile⟩, hentered, hopened⟩
    obtain ⟨hdirectory, habove⟩ := List.forall_mem_cons.1 hentered
    obtain ⟨t, ht, hfile⟩ := Option.bind_eq_some_iff.1 hfile
    refine ⟨hopened [] List.nil_prefix, hdirectory, t, (Tree.entry?_eq_some_iff h).1 ht, ⟨content, hfile⟩, habove, ?_⟩
    intro q hq
    exact hopened (directory :: q) (List.cons_prefix_cons.2 ⟨rfl, hq⟩)
  · rintro ⟨hp, hdirectory, t, ht, ⟨content, hfile⟩, hentered, hopened⟩
    refine ⟨⟨content, ?_⟩, List.forall_mem_cons.2 ⟨hdirectory, hentered⟩, fun q hq => ?_⟩
    · exact Option.bind_eq_some_iff.2 ⟨t, (Tree.entry?_eq_some_iff h).2 ht, hfile⟩
    · rcases List.prefix_cons_iff.1 hq with rfl | ⟨q, rfl, hbelow⟩
      · exact hp
      · exact hopened q hbelow

end Entries

/-- the walk finds the files that can be reached -/
theorem mem_filesBelow {entries : List (Text × Tree)} (h : (Tree.directory entries).WellFormed) {p f : Path} :
    f ∈ filesBelow p (.directory entries) ↔
      ∃ above name, Reached p (.directory entries) above name ∧ f = p.descend (above ++ [name]) := by
  generalize ht : Tree.directory entries = t at h
  induction h generalizing p entries with
  | file content => cases ht
  | @directory entries' distinct names below ih =>
    obtain rfl := Tree.directory.inj ht
    rw [mem_filesBelow_directory]
    constructor
    · rintro ⟨hp, ⟨name, t⟩, he, hpass, hf⟩
      cases t with
      | file content =>
        obtain rfl := List.mem_singleton.1 (by simpa [filesBelow] using hf)
        exact ⟨[], name, (reached_nil distinct).2 ⟨hp, content, he⟩, rfl⟩
      | directory inner =>
        obtain ⟨above, file, hreached, rfl⟩ := (ih _ he rfl).1 hf
        exact ⟨name :: above, file, (reached_cons distinct).2 ⟨hp, isPassedOver_eq_false.1 hpass, _, he, hreached⟩, rfl⟩
    · rintro ⟨above, name, hreached, rfl⟩
      cases above with
      | nil =>
        obtain ⟨hp, content, he⟩ := (reached_nil distinct).1 hreached
        exact ⟨hp, _, he, rfl, by simp [filesBelow, descend]⟩
      | cons directory above =>
        obtain ⟨hp, hpass, t, he, hreached⟩ := (reached_cons distinct).1 hreached
        cases t with
        | file content =>
          -- nothing is below a file
          obtain ⟨content, hfile⟩ := hreached.isFile
          cases above <;> cases hfile
        | directory inner =>
          exact ⟨hp, _, he, isPassedOver_eq_false.2 hpass, (ih _ he rfl).2 ⟨above, name, hreached, rfl⟩⟩

/-! ## Order -/

theorem components_prefix_of_mem_filesBelow {t : Tree} (h : t.WellFormed) {p f : Path} (hf : f ∈ filesBelow p t) :
    p.components <+: f.components := by
  induction h generalizing p with
  | file content =>
    obtain rfl := List.mem_singleton.1 (by simpa [filesBelow] using hf)
    exact List.prefix_rfl
  | directory distinct names below ih =>
    obtain ⟨-, e, he, -, hf⟩ := mem_filesBelow_directory.1 hf
    have hchild := ih e he hf
    rw [Path.components_child p (names e he)] at hchild
    exact (List.prefix_append _ _).trans hchild

theorem components_of_mem_filesOfEntries {entries : List (Text × Tree)} (h : (Tree.directory entries).WellFormed)
    {p f : Path} {group : Text × List Path} (hgroup : group ∈ filesOfEntries p entries) (hf : f ∈ group.2) :
    ∃ rest, f.components = p.components ++ .name group.1 :: rest := by
  rw [filesOfEntries_eq_map] at hgroup
  obtain ⟨e, he, rfl⟩ := List.mem_map.1 hgroup
  cases h with
  | directory distinct names below =>
    dsimp only at hf
    split at hf
    · cases hf
    · obtain ⟨rest, hrest⟩ := components_prefix_of_mem_filesBelow (below e he) hf
      refine ⟨rest, ?_⟩
      rw [← hrest, Path.components_child p (names e he), List.append_assoc]
      rfl

/-- the files come in the order of the components of their paths -/
theorem pairwise_filesBelow {t : Tree} (h : t.WellFormed) (p : Path) :
    (filesBelow p t).Pairwise fun a b => a.components < b.components := by
  induction h generalizing p with
  | file content =>
    rw [filesBelow]
    exact List.pairwise_singleton _ p
  | @directory entries distinct names below ih =>
    rw [filesBelow]
    split
    · exact List.Pairwise.nil
    rw [List.pairwise_flatMap]
    constructor
    · intro group hgroup
      rw [List.mem_mergeSort, filesOfEntries_eq_map] at hgroup
      obtain ⟨e, he, rfl⟩ := List.mem_map.1 hgroup
      dsimp only
      split
      · exact List.Pairwise.nil
      · exact ih e he (p.child e.1)
    · -- two groups differ in the name that comes after the components of the directory
      have hkeys : (filesOfEntries p entries).Pairwise fun a b => a.1 ≠ b.1 := by
        rw [filesOfEntries_eq_map, List.pairwise_map]
        exact List.pairwise_map.1 distinct
      have hwf : (Tree.directory entries).WellFormed := .directory distinct names below
      have hsorted := pairwise_lt_mergeSort (fun a b : Text × List Path => textLe_eq_true a.1 b.1) hkeys
      refine hsorted.imp_of_mem ?_
      intro a b ha hb hlt f hf f' hf'
      obtain ⟨rest, hrest⟩ := components_of_mem_filesOfEntries hwf (List.mem_mergeSort.1 ha) hf
      obtain ⟨rest', hrest'⟩ := components_of_mem_filesOfEntries hwf (List.mem_mergeSort.1 hb) hf'
      rw [hrest, hrest']
      exact Path.append_name_lt hlt _ _ _

theorem nodup_filesBelow {t : Tree} (h : t.WellFormed) (p : Path) : (filesBelow p t).Nodup := by
  apply (pairwise_filesBelow h p).imp
  rintro a _ hlt rfl
  exact List.lt_asymm hlt hlt

end ClassAtlas.Discovery
