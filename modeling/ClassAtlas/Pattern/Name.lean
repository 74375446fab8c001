/-
Names and type expressions as they are written on a line.

A name is made of ASCII letters, digits and underscores and does not start with a digit; it has at most 128
characters. A type expression is a dotted name with an optional list of type arguments, or a tuple in parentheses;
after it may come a question mark, up to three array ranks and another question mark. What stands between the
brackets is only checked for its characters, so brackets inside need not match.
-/
import ClassAtlas.Pattern.Basic

namespace ClassAtlas.Pattern

def isNameStart (c : Char) : Bool := c.isAlpha || c == '_'

def isNameChar (c : Char) : Bool := c.isAlphanum || c == '_'

def isDottedChar (c : Char) : Bool := isNameChar c || c == '.'

/-- what may stand between the brackets of type arguments or of a tuple -/
def isArgumentChar (c : Char) : Bool :=
  isDottedChar c || c == ',' || c == '<' || c == '>' || c == '?' || c == '[' || c == ']' || Text.isBlank c

/-- what may stand inside an array rank -/
def isRankChar (c : Char) : Bool := c == ',' || Text.isBlank c

/-- a character that is given -/
def char (c : Char) : Pattern Unit := satisfy (· == c)

/-- a name -/
def identifier : Pattern Unit := do
  satisfy isNameStart
  span isNameChar 0 127

/-- a name with dots, of at most one character more than `most` -/
def dottedName (most : Nat) : Pattern Unit := do
  satisfy isNameStart
  span isDottedChar 0 most

/-- a list in angle brackets of at most `most` characters that pass the test, which the brackets do not -/
def angleList (test : Char → Bool) (most : Nat) : Pattern Unit := do
  char '<'
  span test 0 most
  char '>'

/-- type arguments, with blanks before them -/
def typeArguments : Pattern Unit := do
  blanks
  char '<'
  closedBy '>' isArgumentChar 256

/-- a dotted name with optional type arguments -/
def namedType : Pattern Unit := do
  dottedName 127
  optional typeArguments

/-- a tuple -/
def tupleType : Pattern Unit := do
  char '('
  span isArgumentChar 1 256
  char ')'

/-- an array rank -/
def rank : Pattern Unit := do
  char '['
  span isRankChar 0 8
  char ']'

/-- a type expression -/
def typeExpression : Pattern Unit := do
  namedType.or tupleType
  optional (char '?')
  upTo 3 rank
  optional (char '?')

/-- one of the words and the blanks after it -/
def wordAndBlanks (words : List Text) : Pattern Unit := do
  oneOf words
  someBlanks

end ClassAtlas.Pattern
