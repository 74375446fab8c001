/-
Members of a class, each read off one line.

A line may declare a field or a property, and it may declare a method or a constructor. A member starts with
attributes and modifiers; a method and a constructor need at least one word for their visibility. Words that cannot
be types are not taken for the type, or the name, of a member.
-/
import ClassAtlas.Outline.Basic
import ClassAtlas.Outline.Parameter
import ClassAtlas.Pattern.Name

namespace ClassAtlas.Outline

open Pattern

def visibilityWords : List Text := ["public", "private", "protected", "internal"]

def fieldModifiers : List Text :=
  visibilityWords ++
    (["static", "readonly", "const", "volatile", "new", "required", "unsafe", "fixed", "event"] : List Text)

def propertyModifiers : List Text :=
  visibilityWords ++
    (["static", "virtual", "override", "abstract", "sealed", "new", "required", "extern", "unsafe", "partial",
      "readonly"] : List Text)

def methodModifiers : List Text :=
  ["static", "virtual", "override", "abstract", "sealed", "async", "new", "extern", "unsafe", "partial", "readonly"]

/-- an attribute and the blanks after it -/
def attributeTag : Pattern Unit := do
  char '['
  span (· != ']') 0 128
  char ']'
  blanks

def attributes : Pattern Unit := upTo 3 attributeTag

/-- one or two words for the visibility -/
def visibility : Pattern Unit := do
  wordAndBlanks visibilityWords
  optional (wordAndBlanks visibilityWords)

/-- a type and a name -/
def typeAndName : Pattern (Text × Text) := do
  let type ← capture typeExpression
  someBlanks
  let declared ← capture identifier
  return (Text.trim type, declared)

/-- a field, up to its value or its end -/
def fieldPattern : Pattern (Text × Text) := do
  attributes
  upTo 6 (wordAndBlanks fieldModifiers)
  let declared ← typeAndName
  blanks
  satisfy fun c => c == '=' || c == ';'
  return declared

/-- a property, up to its accessors -/
def propertyPattern : Pattern (Text × Text) := do
  attributes
  upTo 6 (wordAndBlanks propertyModifiers)
  let declared ← typeAndName
  blanks
  char '{'
  return declared

def isTypeParameterChar (c : Char) : Bool := isNameChar c || c == ',' || Text.isBlank c

/-- a method, up to its parameters; the value is the type of its result -/
def methodPattern : Pattern Text := do
  attributes
  visibility
  upTo 6 (wordAndBlanks methodModifiers)
  let (type, _) ← typeAndName
  blanks
  optional (angleList isTypeParameterChar 128)
  blanks
  char '('
  return type

/-- a constructor, up to its parameters; the value is its name -/
def constructorPattern : Pattern Text := do
  attributes
  visibility
  let declared ← capture identifier
  blanks
  char '('
  return declared

/-- the type that a pattern reads off a line, unless the type or the name is a word that cannot be one -/
def declaredType? (p : Pattern (Text × Text)) (line : Text) : Option Text := do
  let m ← p.first? line
  let (type, declared) := m.value
  if Vocabulary.isNonTypeWord type || Vocabulary.isNonTypeWord declared then none else some type

/-- the type of the field, or else of the property, on a line -/
def memberType? (line : Text) : Option TypeTree :=
  ([fieldPattern, propertyPattern].findSome? fun p => declaredType? p line).map TypeTree.parse

/-- the type of a method's result -/
def resultType? (type : Text) : Option TypeTree := if type = "void" then none else some (TypeTree.parse type)

/-- the method on a line -/
def method? (line : Text) : Option Method := do
  let m ← methodPattern.first? line
  if Vocabulary.isNonTypeWord m.value then none
  else some ⟨resultType? m.value, parametersAfter m.rest⟩

/-- the constructor of the class on a line -/
def constructor? (className line : Text) : Option Constructor := do
  let m ← constructorPattern.first? line
  if m.value = className then some ⟨className, parametersAfter m.rest⟩ else none

/-- what one line declares -/
structure Declared where
  memberType : Option TypeTree
  method : Option Method
  /-- only on a line without a method -/
  constructor : Option Constructor

def declaredOn (className line : Text) : Declared :=
  let method := method? line
  { memberType := memberType? line
    method := method
    constructor := if method.isSome then none else constructor? className line }

end ClassAtlas.Outline
