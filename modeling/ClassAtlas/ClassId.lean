/-
The identity of a class: its name, the namespace it is declared in and the project it belongs to. Identities are
ordered by these three, in this order, each by its code points.
-/
import ClassAtlas.Text.Basic

namespace ClassAtlas

structure ClassId where
  name : Text
  /-- the namespace, empty if there is none -/
  scope : Text
  project : Text
deriving DecidableEq, Hashable, Repr

/-- a name inside a scope -/
def qualify (scope name : Text) : Text := if scope.isEmpty then name else scope ++ '.' :: name

namespace ClassId

/-- the name with its namespace -/
def qualifiedName (c : ClassId) : Text := qualify c.scope c.name

/-- the parts by which identities are ordered -/
def key (c : ClassId) : List Text := [c.name, c.scope, c.project]

/-- does the first identity not come after the second? -/
def le (a b : ClassId) : Bool := !decide (b.key < a.key)

/-- the identities in their order -/
def sort (ids : List ClassId) : List ClassId := ids.mergeSort le

/-- the order of lists of identities: by the first place where they differ -/
def listLe (a b : List ClassId) : Bool := !decide (b.map key < a.map key)

end ClassId

end ClassAtlas
