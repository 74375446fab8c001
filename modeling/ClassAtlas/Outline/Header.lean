/-
The header of a class: what stands between its name and its body.

The header ends at the first curly bracket. The list of bases starts at its first colon outside angle and round
brackets and ends before ` where `. A parenthesis before the colon opens the parameters of a primary constructor.
-/
import ClassAtlas.Outline.Parameter

namespace ClassAtlas.Outline

open Nesting (Delimiters)

/-- the header, given the text after the class name -/
def headerOf (afterName : Text) : Text := afterName.takeWhile (· != '{')

/-- the header before and from its colon on -/
def colonCut? (afterName : Text) : Option (Text × Text) := Nesting.cut? Delimiters.grouping [':'] (headerOf afterName)

/-- a base without the arguments for its constructor -/
def baseWithoutArguments (base : Text) : Text :=
  match Nesting.cut? Delimiters.angle ['('] base with
  | some (type, _) => Text.trim type
  | none => base

def isRootBase (t : TypeTree) : Bool := Vocabulary.isRootBase t.base

/-- the types of a list of bases -/
def baseTypes (list : Text) : List TypeTree :=
  let listed := Nesting.split Delimiters.grouping ',' (Nesting.before Delimiters.grouping " where " list)
  (listed.map fun base => TypeTree.parse (baseWithoutArguments base)).filter (!isRootBase ·)

/-- the bases of a class; none without a colon -/
def basesOf? (afterName : Text) : Option (List TypeTree) :=
  (colonCut? afterName).map fun cut => baseTypes (cut.2.drop 1)

/-- the part of the header that may hold a primary constructor -/
def beforeColon (afterName : Text) : Text :=
  match colonCut? afterName with
  | some (before, _) => before
  | none => headerOf afterName

/-- the parameter types of a primary constructor. Its parenthesis opens before the colon, and may close anywhere on the
line. -/
def primaryParameters? (afterName : Text) : Option (List TypeTree) :=
  if (beforeColon afterName).contains '(' then
    (Text.splitFirst? '(' afterName).map fun cut => (parametersAfter cut.2).filter (!isRootBase ·)
  else none

end ClassAtlas.Outline
