/-
Entries: one class of one file with the classes that it depends on.
-/
import ClassAtlas.ClassId
import ClassAtlas.Path

namespace ClassAtlas

structure ClassEntry where
  id : ClassId
  file : Path
  dependencies : List ClassId
deriving DecidableEq, Repr

end ClassAtlas
