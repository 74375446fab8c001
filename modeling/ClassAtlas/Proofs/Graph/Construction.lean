/-
The graph that a list of entries gives.

While a graph is built it is compared with what it has been told so far: the classes that were named and the
dependencies that were met, repetitions included (`Built`). Its nodes are the distinct classes and its edges the
distinct dependencies, each in the order of first use. Naming a class and linking two of them keep this, and so does a
whole list of entries (`built_ofEntries`). No class has two numbers, so a path among the numbers is a path among the
classes (`transGen_joined_iff`).
-/
import Mathlib.Logic.Relation
import ClassAtlas.Graph.Basic
import ClassAtlas.Proofs.Interner

namespace ClassAtlas.Graph

open Relation (TransGen)

/-- an entry of the first class lists the second one -/
def DependsOn (es : List ClassEntry) (a b : ClassId) : Prop := ∃ e ∈ es, e.id = a ∧ b ∈ e.dependencies

instance (es : List ClassEntry) (a b : ClassId) : Decidable (DependsOn es a b) :=
  inferInstanceAs (Decidable (∃ e ∈ es, e.id = a ∧ b ∈ e.dependencies))

/-- the classes that entries name, in order: each entry its own class and then its dependencies -/
def named (es : List ClassEntry) : List ClassId := es.flatMap fun e => e.id :: e.dependencies

/-- the dependencies of entries, in order, each with the class that has it -/
def met (es : List ClassEntry) : List (ClassId × ClassId) := es.flatMap fun e => e.dependencies.map fun d => (e.id, d)

theorem mem_met {es : List ClassEntry} {a b : ClassId} : (a, b) ∈ met es ↔ DependsOn es a b := by
  simp only [met, DependsOn, List.mem_flatMap, List.mem_map, Prod.mk.injEq]
  constructor
  · rintro ⟨e, he, d, hd, rfl, rfl⟩
    exact ⟨e, he, rfl, hd⟩
  · rintro ⟨e, he, rfl, hb⟩
    exact ⟨e, he, b, hb, rfl, rfl⟩

/-- both classes of a dependency are named -/
theorem mem_named_of_dependsOn {es : List ClassEntry} {a b : ClassId} (h : DependsOn es a b) :
    a ∈ named es ∧ b ∈ named es := by
  obtain ⟨e, he, rfl, hb⟩ := h
  exact ⟨List.mem_flatMap.2 ⟨e, he, List.mem_cons_self⟩, List.mem_flatMap.2 ⟨e, he, List.mem_cons_of_mem _ hb⟩⟩

/-- the classes at both ends of an edge -/
def ends (g : Graph) (e : Nat × Nat) : Option ClassId × Option ClassId := (g.nodes.items[e.1]?, g.nodes.items[e.2]?)

/-- the nodes are the distinct classes, the edges the distinct dependencies -/
structure Built (g : Graph) (classes : List ClassId) (pairs : List (ClassId × ClassId)) : Prop where
  nodes : g.nodes.toList = distinct classes
  edges : g.edges.toList.map g.ends = (distinct pairs).map fun p => (some p.1, some p.2)

namespace Built

variable {g : Graph} {classes : List ClassId} {pairs : List (ClassId × ClassId)} {a b : ClassId} {i j : Nat}

theorem exists_number (h : Built g classes pairs) (ha : a ∈ classes) : ∃ i : Nat, g.nodes.items[i]? = some a := by
  rw [← Interner.mem_toList, h.nodes, mem_distinct]
  exact ha

theorem ends_of_mem (h : Built g classes pairs) {e : Nat × Nat} (he : e ∈ g.edges.toList) :
    ∃ a b, g.nodes.items[e.1]? = some a ∧ g.nodes.items[e.2]? = some b ∧ (a, b) ∈ pairs := by
  have hends : g.ends e ∈ g.edges.toList.map g.ends := List.mem_map_of_mem he
  rw [h.edges] at hends
  obtain ⟨⟨a, b⟩, hp, heq⟩ := List.mem_map.1 hends
  obtain ⟨ha, hb⟩ := Prod.mk.inj heq
  exact ⟨a, b, ha.symm, hb.symm, mem_distinct.1 hp⟩

theorem mem_edges_iff (h : Built g classes pairs) (ha : g.nodes.items[i]? = some a) (hb : g.nodes.items[j]? = some b) :
    (i, j) ∈ g.edges.toList ↔ (a, b) ∈ pairs := by
  constructor
  · intro he
    obtain ⟨a', b', ha', hb', hp⟩ := h.ends_of_mem he
    rw [ha] at ha'
    rw [hb] at hb'
    rwa [Option.some.inj ha', Option.some.inj hb']
  · intro hp
    have hends : (some a, some b) ∈ g.edges.toList.map g.ends := by
      rw [h.edges]
      exact List.mem_map_of_mem (f := fun p : ClassId × ClassId => (some p.1, some p.2)) (mem_distinct.2 hp)
    obtain ⟨⟨i', j'⟩, he, heq⟩ := List.mem_map.1 hends
    obtain ⟨hi, hj⟩ := Prod.mk.inj heq
    rwa [Interner.eq_of_getElem? ha hi, Interner.eq_of_getElem? hb hj]

/-! ## The steps of building a graph -/

theorem empty : Built {} [] [] := ⟨rfl, rfl⟩

/-- naming a class moves no other one -/
theorem name (h : Built g classes pairs) (c : ClassId) :
    Built { g with nodes := (g.nodes.intern c).1 } (classes ++ [c]) pairs := by
  refine ⟨Interner.toList_intern_distinct h.nodes c, ?_⟩
  rw [← h.edges]
  apply List.map_congr_left
  intro e he
  obtain ⟨a, b, ha, hb, -⟩ := h.ends_of_mem he
  simp only [ends, ha, hb, Interner.getElem?_intern_of_some ha, Interner.getElem?_intern_of_some hb]

/-- two numbers are linked once, as are their classes -/
theorem link (h : Built g classes pairs) (ha : g.nodes.items[i]? = some a) (hb : g.nodes.items[j]? = some b) :
    Built { g with edges := (g.edges.intern (i, j)).1 } classes (pairs ++ [(a, b)]) := by
  refine ⟨h.nodes, ?_⟩
  have hmem := h.mem_edges_iff ha hb
  by_cases he : (i, j) ∈ g.edges.toList
  · obtain ⟨n, hn⟩ := Interner.mem_toList.1 he
    rw [Interner.intern_of_getElem? hn, distinct_snoc_of_mem (hmem.1 he)]
    exact h.edges
  · rw [(Interner.toList_intern_of_not_mem he).1, distinct_snoc_of_not_mem (mt hmem.2 he), List.map_append,
      List.map_append]
    apply congr (congrArg _ h.edges)
    simp [ends, ha, hb]

theorem addDependency (h : Built g classes pairs) (ha : g.nodes.items[i]? = some a) (b : ClassId) :
    Built (Graph.addDependency i g b) (classes ++ [b]) (pairs ++ [(a, b)]) :=
  (h.name b).link (Interner.getElem?_intern_of_some ha b) (Interner.getElem?_intern g.nodes b)

theorem addDependencies (h : Built g classes pairs) (ha : g.nodes.items[i]? = some a) (ds : List ClassId) :
    Built (ds.foldl (Graph.addDependency i) g) (classes ++ ds) (pairs ++ ds.map fun d => (a, d)) := by
  induction ds generalizing g classes pairs with
  | nil => simpa using h
  | cons d ds ih =>
    have hd := ih (h.addDependency ha d) (Interner.getElem?_intern_of_some ha d)
    simpa using hd

theorem addEntry (h : Built g classes pairs) (e : ClassEntry) :
    Built (g.addEntry e) (classes ++ e.id :: e.dependencies) (pairs ++ e.dependencies.map fun d => (e.id, d)) := by
  have he := (h.name e.id).addDependencies (Interner.getElem?_intern g.nodes e.id) e.dependencies
  simpa [Graph.addEntry] using he

theorem addEntries (h : Built g classes pairs) (es : List ClassEntry) :
    Built (es.foldl Graph.addEntry g) (classes ++ named es) (pairs ++ met es) := by
  induction es generalizing g classes pairs with
  | nil => simpa [named, met] using h
  | cons e es ih => simpa [named, met] using ih (h.addEntry e)

end Built

/-- **The graph of entries.** Its nodes are the classes that the entries name and its edges their dependencies, in the
order of first use and without repetitions. -/
theorem built_ofEntries (es : List ClassEntry) : Built (ofEntries es) (named es) (met es) :=
  Built.empty.addEntries es

theorem edgeCount_ofEntries (es : List ClassEntry) : (ofEntries es).edgeCount = (met es).toFinset.card := by
  have hlength := congrArg List.length (built_ofEntries es).edges
  rw [List.length_map, List.length_map, length_distinct] at hlength
  exact hlength

/-! ## Paths -/

/-- an edge leads from the first number to the second -/
def Joined (g : Graph) (i j : Nat) : Prop := (i, j) ∈ g.edges.toList

/-- edges stand between nodes -/
def InRange (g : Graph) : Prop := ∀ i j, g.Joined i j → i < g.nodeCount ∧ j < g.nodeCount

theorem inRange_ofEntries (es : List ClassEntry) : (ofEntries es).InRange := by
  intro i j h
  obtain ⟨a, b, ha, hb, -⟩ := (built_ofEntries es).ends_of_mem h
  exact ⟨(Array.getElem?_eq_some_iff.1 ha).1, (Array.getElem?_eq_some_iff.1 hb).1⟩

/-- **Paths among numbers are paths among classes.** -/
theorem transGen_joined_iff {es : List ClassEntry} {i j : Nat} {a b : ClassId}
    (ha : (ofEntries es).nodes.items[i]? = some a) (hb : (ofEntries es).nodes.items[j]? = some b) :
    TransGen (ofEntries es).Joined i j ↔ TransGen (DependsOn es) a b := by
  have hbuilt := built_ofEntries es
  constructor
  · intro h
    induction h generalizing b with
    | single he => exact TransGen.single (mem_met.1 ((hbuilt.mem_edges_iff ha hb).1 he))
    | tail _ he ih =>
      obtain ⟨c, b', hc, hb', hp⟩ := hbuilt.ends_of_mem he
      rw [hb] at hb'
      obtain rfl := Option.some.inj hb'
      exact (ih hc).tail (mem_met.1 hp)
  · intro h
    induction h generalizing j with
    | single hd => exact TransGen.single ((hbuilt.mem_edges_iff ha hb).2 (mem_met.2 hd))
    | tail _ hd ih =>
      obtain ⟨k, hk⟩ := hbuilt.exists_number (mem_named_of_dependsOn hd).1
      exact (ih hk).tail ((hbuilt.mem_edges_iff hk hb).2 (mem_met.2 hd))

end ClassAtlas.Graph
