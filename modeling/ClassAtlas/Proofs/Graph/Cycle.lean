/-
Cycles are the classes that depend on each other.

The numbers on a cycle with `v` are those that `v` reaches and that reach `v` (`mem_cycleAt`). Sharing a cycle is
symmetric and transitive, so each number on a cycle has one such list, which is that of all its members (`cycleAt_eq`),
and exactly one of them is the first of its own list. Hence every cycle is listed once, and two of them are disjoint.
Carried over to classes this is the main statement, `cycles_ofEntries`: the cycles of the graph of entries are the
classes of mutual dependency, each strictly sorted and in order.
-/
import Mathlib.Data.List.Nodup
import Mathlib.Data.List.Sort
import ClassAtlas.Graph.Cycle
import ClassAtlas.Proofs.Graph.Construction
import ClassAtlas.Proofs.Graph.Reach
import ClassAtlas.Proofs.Sorting

namespace ClassAtlas.Graph

open Relation (TransGen)

/-! ## The tables of edges -/

theorem size_addEdges (edges : List (Nat × Nat)) (table : Array (List Nat)) :
    (edges.foldl (fun table e => table.modify e.1 (e.2 :: ·)) table).size = table.size := by
  induction edges generalizing table with
  | nil => rfl
  | cons e edges ih => rw [List.foldl_cons, ih, Array.size_modify]

theorem mem_addEdges {edges : List (Nat × Nat)} {table : Array (List Nat)} {v w : Nat} :
    w ∈ (edges.foldl (fun table e => table.modify e.1 (e.2 :: ·)) table)[v]?.getD [] ↔
      w ∈ table[v]?.getD [] ∨ v < table.size ∧ (v, w) ∈ edges := by
  induction edges generalizing table with
  | nil => simp
  | cons e edges ih =>
    rw [List.foldl_cons, ih, Array.getElem?_modify, Array.size_modify, List.mem_cons, Prod.ext_iff]
    by_cases he : e.1 = v
    · by_cases hv : v < table.size
      · simp [he, hv, or_assoc, or_left_comm]
      · simp [he, hv]
    · simp [he, Ne.symm he]

theorem size_adjacency (bound : Nat) (edges : List (Nat × Nat)) : (adjacency bound edges).size = bound := by
  rw [adjacency, size_addEdges, Array.size_replicate]

theorem mem_adjacency {bound : Nat} {edges : List (Nat × Nat)} {v w : Nat} :
    w ∈ (adjacency bound edges)[v]?.getD [] ↔ v < bound ∧ (v, w) ∈ edges := by
  have hempty : (Array.replicate bound ([] : List Nat))[v]?.getD [] = [] := by
    by_cases hv : v < bound
    · simp [hv]
    · simp [hv]
  rw [adjacency, mem_addEdges, hempty, Array.size_replicate]
  simp

/-- the search along a table of edges finds what a path leads to -/
theorem mem_reachFrom {bound : Nat} {edges : List (Nat × Nat)} (h : ∀ e ∈ edges, e.1 < bound ∧ e.2 < bound)
    {u v : Nat} : u ∈ reachFrom (adjacency bound edges) v ↔ TransGen (fun i j => (i, j) ∈ edges) v u := by
  have hstep : ∀ i j : Nat, j ∈ (adjacency bound edges)[i]?.getD [] ↔ (i, j) ∈ edges := by
    intro i j
    rw [mem_adjacency, and_iff_right_iff_imp]
    intro hij
    exact (h _ hij).1
  have hleads : LeadsTo (fun v => (adjacency bound edges)[v]?.getD []) = fun i j => (i, j) ∈ edges := by
    funext i j
    exact propext (hstep i j)
  have hbound : ∀ i : Nat, ∀ j ∈ (adjacency bound edges)[i]?.getD [], j < bound := by
    intro i j hij
    exact (h _ ((hstep i j).1 hij)).2
  rw [reachFrom, size_adjacency, mem_reach_iff hbound (hbound v), hleads, TransGen.head'_iff]
  simp only [hstep]

/-! ## The numbers on a cycle -/

/-- the numbers on a cycle with `v` -/
def cycleAt (g : Graph) (v : Nat) : List Nat :=
  sharesCycle (adjacency g.nodeCount g.edges.toList) (adjacency g.nodeCount (g.edges.toList.map Prod.swap)) v

section Numbers

variable {g : Graph} {u v : Nat} {numbers : List Nat}

theorem mem_reachFrom_forward (hg : g.InRange) :
    u ∈ reachFrom (adjacency g.nodeCount g.edges.toList) v ↔ TransGen g.Joined v u :=
  mem_reachFrom fun e he => hg e.1 e.2 he

theorem mem_reachFrom_backward (hg : g.InRange) :
    u ∈ reachFrom (adjacency g.nodeCount (g.edges.toList.map Prod.swap)) v ↔ TransGen g.Joined u v := by
  have hswap : (fun i j => (i, j) ∈ g.edges.toList.map Prod.swap) = Function.swap g.Joined := by
    funext i j
    apply propext
    simp [Function.swap, Joined]
  rw [mem_reachFrom, hswap, Relation.transGen_swap]
  intro e he
  obtain ⟨⟨i, j⟩, hij, rfl⟩ := List.mem_map.1 he
  exact (hg i j hij).symm

theorem mem_cycleAt (hg : g.InRange) : u ∈ g.cycleAt v ↔ TransGen g.Joined v u ∧ TransGen g.Joined u v := by
  unfold cycleAt sharesCycle
  simp only [Std.HashSet.contains_iff_mem, size_adjacency]
  by_cases hv : v ∈ reachFrom (adjacency g.nodeCount g.edges.toList) v
  · simp only [hv, ite_true, List.mem_filter, List.mem_range, Bool.and_eq_true, Std.HashSet.contains_iff_mem,
      mem_reachFrom_forward hg, mem_reachFrom_backward hg, and_iff_right_iff_imp]
    rintro ⟨hvu, -⟩
    obtain ⟨p, -, hp⟩ := TransGen.tail'_iff.1 hvu
    exact (hg p u hp).2
  · simp only [hv, ite_false, List.not_mem_nil, false_iff]
    rintro ⟨hvu, huv⟩
    exact hv ((mem_reachFrom_forward hg).2 (hvu.trans huv))

theorem pairwise_cycleAt (g : Graph) (v : Nat) : (g.cycleAt v).Pairwise (· < ·) := by
  unfold cycleAt sharesCycle
  simp only
  split
  · exact List.pairwise_lt_range.filter _
  · exact List.Pairwise.nil

/-- the members of a cycle share it -/
theorem cycleAt_eq (hg : g.InRange) (h : u ∈ g.cycleAt v) : g.cycleAt u = g.cycleAt v := by
  obtain ⟨hvu, huv⟩ := (mem_cycleAt hg).1 h
  apply (pairwise_cycleAt g u).eq_of_mem_iff (pairwise_cycleAt g v)
  intro w
  rw [mem_cycleAt hg, mem_cycleAt hg]
  constructor
  · rintro ⟨huw, hwu⟩
    exact ⟨hvu.trans huw, hwu.trans huv⟩
  · rintro ⟨hvw, hwv⟩
    exact ⟨huv.trans hvw, hwv.trans hvu⟩

/-! ## Every cycle once -/

theorem mem_cycleNumbers (hg : g.InRange) :
    numbers ∈ g.cycleNumbers ↔ ∃ v, numbers = g.cycleAt v ∧ numbers.head? = some v := by
  simp only [cycleNumbers, List.mem_filterMap, List.mem_range]
  constructor
  · rintro ⟨v, -, h⟩
    obtain ⟨hhead, heq⟩ := Option.ite_none_right_eq_some.1 h
    obtain rfl := Option.some.inj heq
    exact ⟨v, rfl, hhead⟩
  · rintro ⟨v, rfl, hhead⟩
    obtain ⟨hvv, -⟩ := (mem_cycleAt hg).1 (List.mem_of_mem_head? hhead)
    obtain ⟨w, hw, -⟩ := TransGen.head'_iff.1 hvv
    exact ⟨v, (hg v w hw).1, if_pos hhead⟩

theorem eq_cycleAt_of_mem (hg : g.InRange) (h : numbers ∈ g.cycleNumbers) (hu : u ∈ numbers) :
    numbers = g.cycleAt u := by
  obtain ⟨v, rfl, -⟩ := (mem_cycleNumbers hg).1 h
  exact (cycleAt_eq hg hu).symm

/-- the first member of a cycle stands for it -/
theorem cycleAt_mem_cycleNumbers (hg : g.InRange) (h : u ∈ g.cycleAt v) : g.cycleAt v ∈ g.cycleNumbers := by
  cases hc : g.cycleAt v with
  | nil =>
    rw [hc] at h
    contradiction
  | cons first more =>
    have hfirst : g.cycleAt first = g.cycleAt v := cycleAt_eq hg (hc ▸ List.mem_cons_self)
    exact (mem_cycleNumbers hg).2 ⟨first, by rw [hfirst, hc], rfl⟩

theorem disjoint_cycleNumbers (hg : g.InRange) : g.cycleNumbers.Pairwise List.Disjoint := by
  apply List.pairwise_filterMap.2
  apply List.pairwise_lt_range.imp
  intro v v' hlt numbers hv numbers' hv' u hu hu'
  obtain ⟨hhead, heq⟩ := Option.ite_none_right_eq_some.1 hv
  obtain ⟨hhead', heq'⟩ := Option.ite_none_right_eq_some.1 hv'
  obtain rfl := Option.some.inj heq
  obtain rfl := Option.some.inj heq'
  -- a shared member makes both lists the same, and with them their first members
  have hfirst : some v = some v' := by
    calc some v = (g.cycleAt v).head? := hhead.symm
      _ = (g.cycleAt u).head? := by rw [cycleAt_eq hg hu]
      _ = (g.cycleAt v').head? := by rw [cycleAt_eq hg hu']
      _ = some v' := hhead'
  exact absurd (Option.some.inj hfirst) (Nat.ne_of_lt hlt)

end Numbers

/-! ## The classes on a cycle -/

theorem mem_classesAt {g : Graph} {numbers : List Nat} {c : ClassId} :
    c ∈ g.classesAt numbers ↔ ∃ i ∈ numbers, g.nodes.items[i]? = some c :=
  List.mem_filterMap

theorem nodup_classesAt {g : Graph} {numbers : List Nat} (h : numbers.Nodup) : (g.classesAt numbers).Nodup := by
  apply h.filterMap
  intro i j c hi hj
  exact Interner.eq_of_getElem? hi hj

/-- the cycles in the order of their first numbers -/
def unsortedCycles (g : Graph) : List (List ClassId) :=
  g.cycleNumbers.map fun numbers => ClassId.sort (g.classesAt numbers)

theorem cycles_perm (g : Graph) : g.cycles.Perm g.unsortedCycles := List.mergeSort_perm _ _

theorem mem_cycles {g : Graph} {cycle : List ClassId} :
    cycle ∈ g.cycles ↔ ∃ numbers ∈ g.cycleNumbers, ClassId.sort (g.classesAt numbers) = cycle := by
  rw [(cycles_perm g).mem_iff, unsortedCycles, List.mem_map]

theorem disjoint_unsortedCycles {g : Graph} (hg : g.InRange) : g.unsortedCycles.Pairwise List.Disjoint := by
  apply List.pairwise_map.2
  apply (disjoint_cycleNumbers hg).imp
  intro numbers numbers' hdisjoint c hc hc'
  obtain ⟨i, hi, hic⟩ := mem_classesAt.1 (ClassId.mem_sort.1 hc)
  obtain ⟨j, hj, hjc⟩ := mem_classesAt.1 (ClassId.mem_sort.1 hc')
  obtain rfl := Interner.eq_of_getElem? hic hjc
  exact hdisjoint hi hj

theorem disjoint_cycles {g : Graph} (hg : g.InRange) : g.cycles.Pairwise List.Disjoint :=
  (cycles_perm g).symm.pairwise (disjoint_unsortedCycles hg) fun h _ hb ha => h ha hb

theorem pairwise_of_mem_cycles {g : Graph} (hg : g.InRange) {cycle : List ClassId} (h : cycle ∈ g.cycles) :
    cycle.Pairwise fun a b => a.key < b.key := by
  obtain ⟨numbers, hn, rfl⟩ := mem_cycles.1 h
  obtain ⟨v, rfl, -⟩ := (mem_cycleNumbers hg).1 hn
  apply ClassId.pairwise_sort
  apply nodup_classesAt
  exact (pairwise_cycleAt g v).imp fun hlt => Nat.ne_of_lt hlt

section OfEntries

variable {es : List ClassEntry} {a b : ClassId}

/-- a class with a dependency has a number, and so has each class that is depended on -/
theorem exists_number_of_transGen (h : TransGen (DependsOn es) a b) :
    ∃ i j : Nat, (ofEntries es).nodes.items[i]? = some a ∧ (ofEntries es).nodes.items[j]? = some b := by
  obtain ⟨c, hac, -⟩ := TransGen.head'_iff.1 h
  obtain ⟨d, -, hdb⟩ := TransGen.tail'_iff.1 h
  obtain ⟨i, hi⟩ := (built_ofEntries es).exists_number (mem_named_of_dependsOn hac).1
  obtain ⟨j, hj⟩ := (built_ofEntries es).exists_number (mem_named_of_dependsOn hdb).2
  exact ⟨i, j, hi, hj⟩

/-- two classes share a cycle exactly if each depends on the other, directly or not -/
theorem share_cycle_iff (es : List ClassEntry) (a b : ClassId) :
    (∃ cycle ∈ (ofEntries es).cycles, a ∈ cycle ∧ b ∈ cycle) ↔
      TransGen (DependsOn es) a b ∧ TransGen (DependsOn es) b a := by
  have hg := inRange_ofEntries es
  constructor
  · rintro ⟨cycle, hcycle, ha, hb⟩
    obtain ⟨numbers, hn, rfl⟩ := mem_cycles.1 hcycle
    obtain ⟨i, hi, hia⟩ := mem_classesAt.1 (ClassId.mem_sort.1 ha)
    obtain ⟨j, hj, hjb⟩ := mem_classesAt.1 (ClassId.mem_sort.1 hb)
    rw [eq_cycleAt_of_mem hg hn hi, mem_cycleAt hg, transGen_joined_iff hia hjb, transGen_joined_iff hjb hia] at hj
    exact hj
  · rintro ⟨hab, hba⟩
    obtain ⟨i, j, hi, hj⟩ := exists_number_of_transGen hab
    have hshared : j ∈ (ofEntries es).cycleAt i := by
      rw [mem_cycleAt hg, transGen_joined_iff hi hj, transGen_joined_iff hj hi]
      exact ⟨hab, hba⟩
    have hself : i ∈ (ofEntries es).cycleAt i := by
      rw [mem_cycleAt hg, transGen_joined_iff hi hi]
      exact ⟨hab.trans hba, hab.trans hba⟩
    refine ⟨_, mem_cycles.2 ⟨_, cycleAt_mem_cycleNumbers hg hself, rfl⟩, ?_, ?_⟩
    · exact ClassId.mem_sort.2 (mem_classesAt.2 ⟨i, hself, hi⟩)
    · exact ClassId.mem_sort.2 (mem_classesAt.2 ⟨j, hshared, hj⟩)

theorem ne_nil_of_mem_cycles {cycle : List ClassId} (h : cycle ∈ (ofEntries es).cycles) : cycle ≠ [] := by
  have hg := inRange_ofEntries es
  obtain ⟨numbers, hn, rfl⟩ := mem_cycles.1 h
  obtain ⟨v, rfl, hhead⟩ := (mem_cycleNumbers hg).1 hn
  have hv := List.mem_of_mem_head? hhead
  obtain ⟨w, hw, -⟩ := TransGen.head'_iff.1 ((mem_cycleAt hg).1 hv).1
  obtain ⟨c, -, hc, -⟩ := (built_ofEntries es).ends_of_mem hw
  exact List.ne_nil_of_mem (ClassId.mem_sort.2 (mem_classesAt.2 ⟨v, hv, hc⟩))

/-- cycles that share no class differ, so their order is strict -/
theorem pairwise_cycles (es : List ClassEntry) :
    (ofEntries es).cycles.Pairwise fun x y => x.map ClassId.key < y.map ClassId.key := by
  apply pairwise_lt_mergeSort ClassId.listLe_eq_true
  apply (disjoint_unsortedCycles (inRange_ofEntries es)).imp_of_mem
  intro x y hx _ hdisjoint hkeys
  obtain rfl := List.map_injective_iff.2 (fun _ _ => ClassId.key_injective) hkeys
  obtain ⟨c, hc⟩ := List.exists_mem_of_ne_nil _ (ne_nil_of_mem_cycles ((cycles_perm _).mem_iff.2 hx))
  exact hdisjoint hc hc

/-- **Cycles are mutual dependency.** A class is on a cycle exactly if it depends on itself, directly or not, and two
classes are on one cycle exactly if each depends on the other. No class is on two cycles, no cycle is empty, and the
classes of a cycle as well as the cycles themselves are strictly sorted. -/
theorem cycles_ofEntries (es : List ClassEntry) :
    (∀ c, (∃ cycle ∈ (ofEntries es).cycles, c ∈ cycle) ↔ TransGen (DependsOn es) c c) ∧
    (∀ a b, (∃ cycle ∈ (ofEntries es).cycles, a ∈ cycle ∧ b ∈ cycle) ↔
      TransGen (DependsOn es) a b ∧ TransGen (DependsOn es) b a) ∧
    (ofEntries es).cycles.Pairwise List.Disjoint ∧
    (∀ cycle ∈ (ofEntries es).cycles, cycle ≠ [] ∧ cycle.Pairwise fun a b => a.key < b.key) ∧
    (ofEntries es).cycles.Pairwise fun x y => x.map ClassId.key < y.map ClassId.key := by
  have hg := inRange_ofEntries es
  refine ⟨?_, share_cycle_iff es, disjoint_cycles hg, ?_, pairwise_cycles es⟩
  · intro c
    simpa only [and_self] using share_cycle_iff es c c
  · intro cycle hcycle
    exact ⟨ne_nil_of_mem_cycles hcycle, pairwise_of_mem_cycles hg hcycle⟩

/-- three classes in a ring: the first and the last are on one cycle -/
theorem cycles_ofEntries_ring :
    let id (c : Char) : ClassId := ⟨[c], [], ['p']⟩
    let es : List ClassEntry :=
      [⟨id 'A', ⟨['f']⟩, [id 'B']⟩, ⟨id 'B', ⟨['f']⟩, [id 'C']⟩, ⟨id 'C', ⟨['f']⟩, [id 'A']⟩]
    ∃ cycle ∈ (ofEntries es).cycles, (id 'A' ∈ cycle ∧ id 'C' ∈ cycle) ∧ cycle.Pairwise fun a b => a.key < b.key := by
  intro id es
  obtain ⟨-, hshare, -, hsorted, -⟩ := cycles_ofEntries es
  have hab : DependsOn es (id 'A') (id 'B') := by decide
  have hbc : DependsOn es (id 'B') (id 'C') := by decide
  have hca : DependsOn es (id 'C') (id 'A') := by decide
  obtain ⟨cycle, hcycle, hmem⟩ := (hshare _ _).2 ⟨(TransGen.single hab).tail hbc, TransGen.single hca⟩
  exact ⟨cycle, hcycle, hmem, (hsorted cycle hcycle).2⟩

end OfEntries

end ClassAtlas.Graph
