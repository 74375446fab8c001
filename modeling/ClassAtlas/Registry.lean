/-
The registry of declared classes.

A class is registered under its bare name and, if it has a namespace, first under its qualified name. A key holds what
was registered under it last. When that differs from what it held before, the registry notes a collision; collisions
are listed in the order in which they arose.
-/
import Std.Data.HashMap
import ClassAtlas.ClassId

namespace ClassAtlas

/-- where a registered class belongs -/
structure Owner where
  scope : Text
  project : Text
deriving DecidableEq, Repr

/-- a key whose owner was replaced by a different one -/
structure Collision where
  key : Text
  previous : Owner
  replacement : Owner
deriving DecidableEq, Repr

structure Registry where
  owners : Std.HashMap Text Owner := {}
  /-- the collisions, latest first -/
  reversedCollisions : List Collision := []

namespace Registry

def lookup? (r : Registry) (key : Text) : Option Owner := r.owners[key]?

/-- the number of keys -/
def size (r : Registry) : Nat := r.owners.size

def isEmpty (r : Registry) : Bool := r.owners.isEmpty

/-- the collisions in the order in which they arose -/
def collisions (r : Registry) : List Collision := r.reversedCollisions.reverse

/-- gives a key a new owner -/
def insert (r : Registry) (key : Text) (owner : Owner) : Registry :=
  let replaced := match r.lookup? key with
    | some previous => if previous = owner then [] else [⟨key, previous, owner⟩]
    | none => []
  { owners := r.owners.insert key owner, reversedCollisions := replaced ++ r.reversedCollisions }

/-- the keys of a class, in the order in which they are given their owner -/
def keysOf (c : ClassId) : List Text :=
  if c.scope.isEmpty then [c.name] else [qualify c.scope c.name, c.name]

/-- registers a class -/
def register (r : Registry) (c : ClassId) : Registry :=
  (keysOf c).foldl (fun r key => r.insert key ⟨c.scope, c.project⟩) r

/-- the registry of a sequence of classes -/
def ofClasses (cs : List ClassId) : Registry := cs.foldl register {}

end Registry

end ClassAtlas
