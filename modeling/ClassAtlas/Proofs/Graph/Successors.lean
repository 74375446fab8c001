/-
The graph of entries, node by node and edge by edge.

Its nodes are the classes that the entries name, its edges the dependencies that they list, both where they are met
first and however often they are met again, in the same entry or in a later one. The successors of a class are therefore
what any entry of that class lists, and they come in strict order (`ofEntries_exact`). A class that is only ever depended
on is a node without successors, and one that is no node has none either.
-/
import ClassAtlas.Proofs.Graph.Cycle

namespace ClassAtlas.Graph

theorem mem_targets {g : Graph} {i j : Nat} : j ∈ g.targets i ↔ g.Joined i j := by
  simp [targets, Joined]

/-- no edge is counted twice, so no target is -/
theorem nodup_targets (g : Graph) (i : Nat) : (g.targets i).Nodup := by
  refine (g.edges.nodup_toList.filter _).map_on ?_
  rintro ⟨a, b⟩ ha ⟨c, d⟩ hc rfl
  have hi : a = i := by simpa using (List.mem_filter.1 ha).2
  have hi' : c = i := by simpa using (List.mem_filter.1 hc).2
  rw [hi, hi']

theorem pairwise_successors (g : Graph) (c : ClassId) : (g.successors c).Pairwise fun a b => a.key < b.key := by
  unfold successors
  split
  · exact ClassId.pairwise_sort (nodup_classesAt (g.nodup_targets _))
  · exact List.Pairwise.nil

/-- the successors of a class are what its entries list -/
theorem mem_successors {es : List ClassEntry} {c d : ClassId} :
    d ∈ (ofEntries es).successors c ↔ DependsOn es c d := by
  have hbuilt := built_ofEntries es
  unfold successors
  split
  · rename_i i hi
    have hc : (ofEntries es).nodes.items[i]? = some c := ((ofEntries es).nodes.index_eq_some_iff c i).1 hi
    rw [ClassId.mem_sort, mem_classesAt]
    constructor
    · rintro ⟨j, hj, hd⟩
      exact mem_met.1 ((hbuilt.mem_edges_iff hc hd).1 (mem_targets.1 hj))
    · intro h
      obtain ⟨j, hd⟩ := hbuilt.exists_number (mem_named_of_dependsOn h).2
      exact ⟨j, mem_targets.2 ((hbuilt.mem_edges_iff hc hd).2 (mem_met.2 h)), hd⟩
  · rename_i hnone
    simp only [List.not_mem_nil, false_iff]
    intro h
    obtain ⟨i, hi⟩ := hbuilt.exists_number (mem_named_of_dependsOn h).1
    rw [← (ofEntries es).nodes.index_eq_some_iff, hnone] at hi
    contradiction

theorem successors_eq_nil {es : List ClassEntry} {c : ClassId} (h : c ∉ (ofEntries es).nodes.toList) :
    (ofEntries es).successors c = [] := by
  rw [(built_ofEntries es).nodes, mem_distinct] at h
  refine List.eq_nil_iff_forall_not_mem.2 fun d hd => h ?_
  exact (mem_named_of_dependsOn (mem_successors.1 hd)).1

/-- **A graph holds what its entries say, once.** Its nodes are the classes in the order in which they are named first,
its edges the dependencies in the order in which they are met first, and the successors of a class are, in strict order,
what some entry of that class lists. -/
theorem ofEntries_exact (es : List ClassEntry) :
    (ofEntries es).nodes.toList = firstUses (named es) ∧ (ofEntries es).nodes.toList.Nodup ∧
    (ofEntries es).edges.toList.map (ofEntries es).ends = (firstUses (met es)).map (fun p => (some p.1, some p.2)) ∧
    (ofEntries es).edges.toList.Nodup ∧
    ∀ c, ((ofEntries es).successors c).Pairwise (fun a b => a.key < b.key) ∧
      (∀ d, d ∈ (ofEntries es).successors c ↔ ∃ e ∈ es, e.id = c ∧ d ∈ e.dependencies) ∧
      (c ∈ (ofEntries es).nodes.toList ∨ (ofEntries es).successors c = []) := by
  have hbuilt := built_ofEntries es
  refine ⟨?_, Interner.nodup_toList _, ?_, Interner.nodup_toList _, fun c => ⟨pairwise_successors _ c, ?_, ?_⟩⟩
  · rw [hbuilt.nodes, distinct_eq_firstUses]
  · rw [hbuilt.edges, distinct_eq_firstUses]
  · exact fun d => mem_successors
  · exact or_iff_not_imp_left.2 successors_eq_nil

end ClassAtlas.Graph
