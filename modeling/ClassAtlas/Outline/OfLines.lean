/-
The outline of a class from its lines.

The first line declares the class. Every later line is read for members, and the whole text, the first line included,
for the types that it uses.
-/
import ClassAtlas.Outline.Header
import ClassAtlas.Outline.Member
import ClassAtlas.Outline.Usage
import ClassAtlas.Source.Chunk

namespace ClassAtlas.Outline

/-- the outline of the class that the first line declares; none if it declares no class -/
def ofLines? : List Text → Option Outline
  | [] => none
  | declaration :: body => do
    let found ← Source.classMatch? declaration
    let className := found.value
    let text := List.intercalate ['\n'] (declaration :: body)
    let declared := body.map (declaredOn className)
    let primary := (primaryParameters? found.rest).map (Constructor.mk className)
    return {
      name := className
      bases := basesOf? found.rest
      constructors := primary.toList ++ declared.filterMap Declared.constructor
      methods := declared.filterMap Declared.method
      memberTypes := declared.filterMap Declared.memberType
      created := createdIn text
      called := calledIn text }

end ClassAtlas.Outline
