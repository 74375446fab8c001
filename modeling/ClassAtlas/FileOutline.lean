/-
What one source text says: its scope and the outlines of its classes (`FileOutline`), or only its scope and the names of
the classes that it declares (`DeclaredNames`). Both are read off the canonical lines.
-/
import ClassAtlas.Outline.OfLines
import ClassAtlas.Source.Canonical
import ClassAtlas.Source.Scope

namespace ClassAtlas

structure FileOutline where
  /-- the namespace of the file, empty if it declares none -/
  scope : Text
  imports : List Text
  classes : List Outline
deriving Repr

structure DeclaredNames where
  scope : Text
  classNames : List Text
deriving Repr

/-- the scope and the outlines of a source text -/
def FileOutline.ofText (source : Text) : FileOutline :=
  let lines := Source.canonicalLines source
  { scope := Source.scopeOf lines
    imports := Source.importsOf lines
    classes := (Source.chunks lines).filterMap Outline.ofLines? }

/-- the scope and the class names of a source text -/
def DeclaredNames.ofText (source : Text) : DeclaredNames :=
  let lines := Source.canonicalLines source
  { scope := Source.scopeOf lines
    classNames := lines.filterMap Source.classNameOf? }

end ClassAtlas
