/-
What a class depends on, reference by reference.

Every node of every type that a class refers to has a meaning of its own, or none: a type of the language or its library
and the class itself have none, and neither has a name that resolves to nothing. The dependencies are these meanings in
the order of the references, each where it is met first (`dependencies_eq_firstUses`). A name that was met before is not
resolved again, and two names may mean one class. Neither shows in the outcome, since a name gives its meaning no later
than any repetition of it would.
-/
import ClassAtlas.Proofs.Grouping
import ClassAtlas.Resolution

namespace ClassAtlas.Resolution

/-- the class that a node of a type means in a class of a file -/
def meaning? (r : Registry) (file : FileOutline) (o : Outline) (t : TypeTree) : Option ClassId :=
  let name := TypeTree.nominalName t.base
  if Vocabulary.isStandardType name = true ∨ name = o.name then none else resolve? r name file.scope file.imports

/-- the classes that the nodes of all referred types mean, in order and with their repetitions -/
def meanings (r : Registry) (file : FileOutline) (o : Outline) : List ClassId :=
  (o.references.flatMap TypeTree.subtrees).filterMap (meaning? r file o)

/-- a name that is left out is a node without a meaning -/
theorem filterMap_referredNames (r : Registry) (file : FileOutline) (o : Outline) :
    ((referredNames o).filterMap fun name => resolve? r name file.scope file.imports) = meanings r file o := by
  have hnames : (o.references.flatMap TypeTree.names).map TypeTree.nominalName =
      (o.references.flatMap TypeTree.subtrees).map fun t => TypeTree.nominalName t.base := by
    have hflat : o.references.flatMap TypeTree.names = (o.references.flatMap TypeTree.subtrees).map TypeTree.base :=
      List.map_flatMap.symm
    rw [hflat, List.map_map]
    rfl
  have hnode : ((fun name => if !(Vocabulary.isStandardType name || name == o.name) then
      resolve? r name file.scope file.imports else none) ∘ fun t => TypeTree.nominalName t.base) =
      meaning? r file o := by
    funext t
    by_cases h : Vocabulary.isStandardType (TypeTree.nominalName t.base) = true ∨ TypeTree.nominalName t.base = o.name
    · rw [meaning?, if_pos h]
      simpa using fun hstandard hown => absurd h (by simp [hstandard, hown])
    · rw [meaning?, if_neg h]
      simp [not_or.1 h]
  rw [referredNames, List.filterMap_filter, hnames, List.filterMap_map, hnode]
  rfl

/-- **Every dependency is met once, at its first reference.** The dependencies are the meanings of all nodes of all
referred types in order, each where it occurs first, whatever names were met before; so none occurs twice. -/
theorem dependencies_eq_firstUses (r : Registry) (file : FileOutline) (o : Outline) :
    dependencies r file o = firstUses (meanings r file o) ∧ (dependencies r file o).Nodup := by
  have hdistinct : dependencies r file o = distinct (meanings r file o) := by
    rw [dependencies, distinct_filterMap_distinct, filterMap_referredNames]
  refine ⟨?_, ?_⟩
  · rw [hdistinct, distinct_eq_firstUses]
  · rw [hdistinct]
    exact nodup_distinct _

end ClassAtlas.Resolution
