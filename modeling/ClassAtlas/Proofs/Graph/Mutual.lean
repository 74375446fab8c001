/-
Cycles depend on nothing but mutual dependency.

A cycle holds the classes that one of its members depends on mutually (`mem_cycle_iff`), and both the classes of a cycle
and the cycles are strictly sorted. So two lists of entries in which the same classes depend on each other have the same
cycles in the same order, whatever else the entries name and in whatever order (`cycles_congr`). In particular a class
without an entry of its own depends on nothing, so the cycles stay if dependencies on such classes are left out
(`cycles_keepDependencies`).
-/
import Mathlib.Data.List.Pairwise
import ClassAtlas.Proofs.Graph.Cycle

namespace ClassAtlas.Graph

open Relation (TransGen)

/-- each of the two classes depends on the other, directly or not -/
def Mutual (es : List ClassEntry) (a b : ClassId) : Prop := TransGen (DependsOn es) a b ∧ TransGen (DependsOn es) b a

section Congruence

variable {es es' : List ClassEntry} {cycle cycle' : List ClassId} {a b : ClassId}

/-- cycles that share a class are the same -/
theorem eq_of_mem_cycles (hc : cycle ∈ (ofEntries es).cycles) (hc' : cycle' ∈ (ofEntries es).cycles) (ha : a ∈ cycle)
    (ha' : a ∈ cycle') : cycle = cycle' := by
  by_contra hne
  have hsymm : Std.Symm (@List.Disjoint ClassId) := ⟨fun _ _ h _ hb ha => h ha hb⟩
  exact (disjoint_cycles (inRange_ofEntries es)).forall hc hc' hne ha ha'

theorem mem_cycle_iff (hc : cycle ∈ (ofEntries es).cycles) (ha : a ∈ cycle) : b ∈ cycle ↔ Mutual es a b := by
  constructor
  · intro hb
    exact (share_cycle_iff es a b).1 ⟨cycle, hc, ha, hb⟩
  · intro h
    obtain ⟨cycle', hc', ha', hb'⟩ := (share_cycle_iff es a b).2 h
    rwa [eq_of_mem_cycles hc hc' ha ha']

theorem mem_cycles_of_mutual_iff (h : ∀ a b, Mutual es a b ↔ Mutual es' a b) (hc : cycle ∈ (ofEntries es).cycles) :
    cycle ∈ (ofEntries es').cycles := by
  obtain ⟨a, ha⟩ := List.exists_mem_of_ne_nil _ (ne_nil_of_mem_cycles hc)
  have hself : Mutual es' a a := (h a a).1 ((mem_cycle_iff hc ha).1 ha)
  obtain ⟨cycle', hc', ha', -⟩ := (share_cycle_iff es' a a).2 hself
  have hmem : ∀ b, b ∈ cycle ↔ b ∈ cycle' := by
    intro b
    rw [mem_cycle_iff hc ha, mem_cycle_iff hc' ha', h]
  have hsorted := pairwise_of_mem_cycles (inRange_ofEntries es) hc
  have hsorted' := pairwise_of_mem_cycles (inRange_ofEntries es') hc'
  rwa [hsorted.eq_of_mem_iff hsorted' hmem]

/-- **Cycles depend on mutual dependency alone.** -/
theorem cycles_congr (h : ∀ a b, Mutual es a b ↔ Mutual es' a b) : (ofEntries es).cycles = (ofEntries es').cycles := by
  apply (pairwise_cycles es).eq_of_mem_iff (pairwise_cycles es')
  intro cycle
  constructor
  · exact mem_cycles_of_mutual_iff h
  · exact mem_cycles_of_mutual_iff fun a b => (h a b).symm

end Congruence

/-! ## Leaving dependencies out -/

/-- the entries without the dependencies that fail the test -/
def keepDependencies (keep : ClassId → Bool) (es : List ClassEntry) : List ClassEntry :=
  es.map fun e => { e with dependencies := e.dependencies.filter keep }

section Keep

variable {keep : ClassId → Bool} {es : List ClassEntry} {a b : ClassId}

theorem dependsOn_keepDependencies : DependsOn (keepDependencies keep es) a b ↔ DependsOn es a b ∧ keep b = true := by
  simp only [DependsOn, keepDependencies, List.mem_map]
  constructor
  · rintro ⟨_, ⟨e, he, rfl⟩, ha, hb⟩
    obtain ⟨hb, hkeep⟩ := List.mem_filter.1 hb
    exact ⟨⟨e, he, ha, hb⟩, hkeep⟩
  · rintro ⟨⟨e, he, ha, hb⟩, hkeep⟩
    exact ⟨_, ⟨e, he, rfl⟩, ha, List.mem_filter.2 ⟨hb, hkeep⟩⟩

/-- what has a dependency has an entry -/
theorem keep_of_transGen (h : ∀ e ∈ es, keep e.id = true) (hab : TransGen (DependsOn es) a b) : keep a = true := by
  obtain ⟨_, ⟨e, he, rfl, -⟩, -⟩ := TransGen.head'_iff.1 hab
  exact h e he

/-- a path to a class that is kept visits no other classes, for it could not leave them -/
theorem transGen_keepDependencies (h : ∀ e ∈ es, keep e.id = true) (hab : TransGen (DependsOn es) a b)
    (hb : keep b = true) : TransGen (DependsOn (keepDependencies keep es)) a b := by
  induction hab with
  | single hd => exact TransGen.single (dependsOn_keepDependencies.2 ⟨hd, hb⟩)
  | tail _ hd ih =>
    have hmiddle := ih (keep_of_transGen h (TransGen.single hd))
    exact hmiddle.tail (dependsOn_keepDependencies.2 ⟨hd, hb⟩)

theorem mutual_keepDependencies (h : ∀ e ∈ es, keep e.id = true) :
    Mutual (keepDependencies keep es) a b ↔ Mutual es a b := by
  constructor
  · rintro ⟨hab, hba⟩
    have hle : DependsOn (keepDependencies keep es) ≤ DependsOn es := fun _ _ hd => (dependsOn_keepDependencies.1 hd).1
    exact ⟨TransGen.mono hle _ _ hab, TransGen.mono hle _ _ hba⟩
  · rintro ⟨hab, hba⟩
    exact ⟨transGen_keepDependencies h hab (keep_of_transGen h hba),
      transGen_keepDependencies h hba (keep_of_transGen h hab)⟩

/-- dependencies on classes without an entry can be left out -/
theorem cycles_keepDependencies (h : ∀ e ∈ es, keep e.id = true) :
    (ofEntries (keepDependencies keep es)).cycles = (ofEntries es).cycles :=
  cycles_congr fun _ _ => mutual_keepDependencies h

end Keep

end ClassAtlas.Graph
