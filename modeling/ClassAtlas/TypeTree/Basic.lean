/-
Type trees: a type's name with its type arguments below it. A tuple is a node without a name over its elements.
-/
import ClassAtlas.Text.Basic

namespace ClassAtlas

inductive TypeTree where
  | node (base : Text) (children : List TypeTree)
deriving Repr, Inhabited

namespace TypeTree

def base : TypeTree → Text
  | node b _ => b

def children : TypeTree → List TypeTree
  | node _ cs => cs

def leaf (b : Text) : TypeTree := node b []

def isTuple (t : TypeTree) : Bool := t.base.isEmpty

mutual

/-- the tree and all trees below it, each before those below it, from left to right -/
def subtrees : TypeTree → List TypeTree
  | node b cs => node b cs :: subtreesOfAll cs

def subtreesOfAll : List TypeTree → List TypeTree
  | [] => []
  | t :: ts => subtrees t ++ subtreesOfAll ts

end

/-- the names in the tree, in the order of `subtrees` -/
def names (t : TypeTree) : List Text := t.subtrees.map base

end TypeTree

end ClassAtlas
