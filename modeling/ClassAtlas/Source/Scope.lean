/-
The scope of a file: the namespace it declares and the namespaces it imports.

A line declares or imports a namespace only if it starts with the word for it. An alias is no import, and neither is a
`using` statement.
-/
import ClassAtlas.Pattern.Name

namespace ClassAtlas.Source

/-- a namespace declaration; its value is the namespace -/
def namespacePattern : Pattern Text := do
  Pattern.literal "namespace"
  Pattern.someBlanks
  Pattern.capture (Pattern.dottedName 255)

/-- an import; its value is the namespace -/
def importPattern : Pattern Text := do
  Pattern.optional (Pattern.wordAndBlanks ["global"])
  Pattern.literal "using"
  Pattern.someBlanks
  Pattern.optional (Pattern.wordAndBlanks ["static"])
  let imported ← Pattern.capture (Pattern.dottedName 255)
  Pattern.blanks
  Pattern.char ';'
  return imported

/-- the namespace that a line declares -/
def namespaceOf? (line : Text) : Option Text := (namespacePattern.first? line).map Match.value

/-- the namespace that a line imports -/
def importOf? (line : Text) : Option Text := (importPattern.first? line).map Match.value

/-- the first namespace that is declared, or the empty one -/
def scopeOf (lines : List Text) : Text := (lines.findSome? namespaceOf?).getD []

/-- the imported namespaces in their order -/
def importsOf (lines : List Text) : List Text := lines.filterMap importOf?

end ClassAtlas.Source
