/-
Distinct elements and groups.

`distinct` keeps the first occurrence of each element. `groupBy` collects the elements with one key: the keys come in
the order of their code points, and the elements of a group in the order in which they were given.
-/
import ClassAtlas.Text.Basic

namespace ClassAtlas

/-- the elements without those that occurred before -/
def distinct {α : Type} [BEq α] : List α → List α
  | [] => []
  | a :: l => a :: (distinct l).filter (· != a)

/-- does the first text not come after the second in the order of their code points? -/
def textLe (a b : Text) : Bool := !decide (b < a)

/-- the groups of elements with the same key -/
def groupBy {α : Type} (key : α → Text) (l : List α) : List (Text × List α) :=
  ((distinct (l.map key)).mergeSort textLe).map fun k => (k, l.filter fun a => key a == k)

end ClassAtlas
