/-
Cycles of the dependency graph.

Two classes lie on one cycle when each can be reached from the other by at least one edge. For each node the nodes
that share a cycle with it are those that it reaches and that reach it; a node is the first of its cycle when it has
the least number among them.
-/
import ClassAtlas.Graph.Basic
import ClassAtlas.Graph.Reach

namespace ClassAtlas.Graph

/-- for each node below the bound, the nodes that its edges lead to -/
def adjacency (bound : Nat) (edges : List (Nat × Nat)) : Array (List Nat) :=
  edges.foldl (fun table e => table.modify e.1 (e.2 :: ·)) (Array.replicate bound [])

/-- the nodes that `start` leads to by at least one edge -/
def reachFrom (table : Array (List Nat)) (start : Nat) : Std.HashSet Nat :=
  let next (v : Nat) : List Nat := table[v]?.getD []
  reach table.size next {} (next start)

/-- the nodes on a cycle with `v`, given the edges forwards and backwards; none if `v` does not lead back to itself -/
def sharesCycle (forward backward : Array (List Nat)) (v : Nat) : List Nat :=
  let after := reachFrom forward v
  if after.contains v then
    let before := reachFrom backward v
    (List.range forward.size).filter fun u => after.contains u && before.contains u
  else []

/-- the cycles as lists of node numbers -/
def cycleNumbers (g : Graph) : List (List Nat) :=
  let forward := adjacency g.nodeCount g.edges.toList
  let backward := adjacency g.nodeCount (g.edges.toList.map Prod.swap)
  (List.range g.nodeCount).filterMap fun v =>
    let members := sharesCycle forward backward v
    if members.head? = some v then some members else none

/-- the cycles: the classes of each in their order, and the cycles in theirs -/
def cycles (g : Graph) : List (List ClassId) :=
  (g.cycleNumbers.map fun numbers => ClassId.sort (g.classesAt numbers)).mergeSort ClassId.listLe

end ClassAtlas.Graph
