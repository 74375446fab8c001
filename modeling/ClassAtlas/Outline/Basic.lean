/-
Outlines: what a class shows of the types it works with, without the meaning of its code.
-/
import ClassAtlas.TypeTree.Basic

namespace ClassAtlas

structure Method where
  /-- none if the method gives nothing back -/
  result : Option TypeTree
  parameters : List TypeTree
deriving Repr

structure Constructor where
  name : Text
  parameters : List TypeTree
deriving Repr

structure Outline where
  name : Text
  /-- none if the class lists no bases at all -/
  bases : Option (List TypeTree)
  constructors : List Constructor
  methods : List Method
  /-- the types of fields and properties -/
  memberTypes : List TypeTree
  /-- the types after `new` -/
  created : List TypeTree
  /-- the types whose static members are called -/
  called : List TypeTree
deriving Repr

/-- the types that a method refers to -/
def Method.references (m : Method) : List TypeTree := m.result.toList ++ m.parameters

namespace Outline

/-- all types that the class refers to -/
def references (o : Outline) : List TypeTree :=
  o.bases.getD [] ++ o.constructors.flatMap Constructor.parameters ++ o.methods.flatMap Method.references ++
    o.memberTypes ++ o.created ++ o.called

end Outline

end ClassAtlas
