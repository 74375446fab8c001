/-
The dependency graph of a list of entries.

Its nodes are the classes, numbered in the order in which the entries name them: each entry names its own class and
then its dependencies. Its edges are pairs of numbers, in the order in which they arise. Neither repeats.
-/
import ClassAtlas.ClassEntry
import ClassAtlas.Interner

namespace ClassAtlas

structure Graph where
  nodes : Interner ClassId := .empty
  edges : Interner (Nat × Nat) := .empty

namespace Graph

/-- adds a dependency of the node `source` -/
def addDependency (source : Nat) (g : Graph) (target : ClassId) : Graph :=
  let (nodes, number) := g.nodes.intern target
  { nodes := nodes, edges := (g.edges.intern (source, number)).1 }

/-- adds a class and its dependencies -/
def addEntry (g : Graph) (e : ClassEntry) : Graph :=
  let (nodes, source) := g.nodes.intern e.id
  e.dependencies.foldl (addDependency source) { g with nodes := nodes }

def ofEntries (es : List ClassEntry) : Graph := es.foldl addEntry {}

def nodeCount (g : Graph) : Nat := g.nodes.size

def edgeCount (g : Graph) : Nat := g.edges.size

/-- the classes with these numbers -/
def classesAt (g : Graph) (numbers : List Nat) : List ClassId := numbers.filterMap fun i => g.nodes.items[i]?

/-- the numbers of the nodes that an edge leads to from a node -/
def targets (g : Graph) (source : Nat) : List Nat :=
  (g.edges.toList.filter fun e => e.1 == source).map Prod.snd

/-- the dependencies of a class in their order; none for a class that is no node -/
def successors (g : Graph) (c : ClassId) : List ClassId :=
  match g.nodes.index[c]? with
  | some source => ClassId.sort (g.classesAt (g.targets source))
  | none => []

end Graph

end ClassAtlas
