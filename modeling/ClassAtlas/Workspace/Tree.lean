/-
Trees of directories and files. A place in a tree is the list of names that lead to it.
-/
import ClassAtlas.Text.Basic

namespace ClassAtlas

inductive Tree where
  | file (content : List UInt8)
  | directory (entries : List (Text × Tree))
deriving Repr, Inhabited

/-- the names that lead from the top of a tree to one of its nodes -/
abbrev Place := List Text

namespace Tree

def isDirectory : Tree → Bool
  | file _ => false
  | directory _ => true

/-- the entry of that name -/
def entry? (t : Tree) (name : Text) : Option Tree :=
  match t with
  | file _ => none
  | directory entries => (entries.find? fun e => e.1 == name).map Prod.snd

/-- the node at a place -/
def node? (t : Tree) (place : Place) : Option Tree := place.foldlM entry? t

/-- changes the entry of that name, or adds one -/
def alterEntry (name : Text) (f : Option Tree → Tree) : List (Text × Tree) → List (Text × Tree)
  | [] => [(name, f none)]
  | (n, t) :: rest => if n = name then (n, f (some t)) :: rest else (n, t) :: alterEntry name f rest

/-- puts a node at a place; directories that are missing on the way are made -/
def put (node : Tree) : Place → Option Tree → Tree
  | [], _ => node
  | name :: rest, some (directory entries) => directory (alterEntry name (put node rest) entries)
  | name :: rest, _ => directory [(name, put node rest none)]

end Tree

end ClassAtlas
