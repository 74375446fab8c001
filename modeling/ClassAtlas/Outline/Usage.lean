/-
Types that the code of a class uses: those it creates with `new`, and those whose static members it calls.

A static call is a capitalised name, a point and a method name before a parenthesis. A name that itself comes after a
point is a member of something else and does not count.
-/
import ClassAtlas.Pattern.Name
import ClassAtlas.TypeTree.Parse
import ClassAtlas.Vocabulary

namespace ClassAtlas.Outline

open Pattern

/-- the creation of an object; the value is its type -/
def creationPattern : Pattern Text := do
  literal "new"
  someBlanks
  let type ← capture namedType
  blanks
  satisfy fun c => c == '(' || c == '{'
  return Text.trim type

def isCallArgumentChar (c : Char) : Bool := isDottedChar c || c == ',' || Text.isBlank c

/-- a static call; the value is the type that it names -/
def callPattern : Pattern Text := do
  let type ← capture (do
    satisfy Char.isUpper
    span isNameChar 0 127)
  char '.'
  identifier
  blanks
  optional (angleList isCallArgumentChar 128)
  blanks
  char '('
  return type

/-- a type that every program has -/
def isCommonType (type : Text) : Bool :=
  let base := TypeTree.nominalName type
  Vocabulary.isLanguageType base || Vocabulary.isLibraryType base

/-- the types that a text creates objects of -/
def createdIn (text : Text) : List TypeTree :=
  let types := (creationPattern.atWordStarts text).map fun found => found.2.value
  (types.filter (!isCommonType ·)).map TypeTree.parse

/-- the types whose static members a text calls -/
def calledIn (text : Text) : List TypeTree :=
  let calls := (callPattern.atWordStarts text).filter fun found => found.1 != some '.'
  ((calls.map fun found => found.2.value).filter (!Vocabulary.isLanguageType ·)).map TypeTree.parse

end ClassAtlas.Outline
