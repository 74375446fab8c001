/-
Source text in canonical lines: without comments, one statement or brace to a line, trimmed, none of them empty.

The lines that hold more than a comment are joined without their comments. One scan goes over all of them and puts a
line feed after every semicolon and every curly bracket outside literals. It starts anew at each line feed, so a literal
that is not closed ends with its line.
-/
import ClassAtlas.Source.Comment

namespace ClassAtlas.Source

/-- a character that ends a statement -/
def isTerminator (c : Char) : Bool := c == ';' || c == '{' || c == '}'

/-- a scan that breaks statements: where it stands, and what it has written, the last character first -/
structure Breaker where
  state : Nesting.State := {}
  reversed : Text := []

namespace Breaker

/-- one more character -/
def step (b : Breaker) (c : Char) : Breaker :=
  if c = '\n' then { reversed := c :: b.reversed }
  else
    { state := b.state.step Nesting.Delimiters.literals c
      reversed := if b.state.atTop && isTerminator c then '\n' :: c :: b.reversed else c :: b.reversed }

/-- a whole text -/
def run (b : Breaker) (text : Text) : Breaker := text.foldl step b

end Breaker

/-- the text with a line feed after every terminator outside literals -/
def breakStatements (text : Text) : Text := (Breaker.run {} text).reversed.reverse

/-- the line without its comments -/
def removeComments (line : Text) : Text := removeLineComment (removeBlockComments line)

/-- the lines that hold more than a line comment, without their comments -/
def codeLines (source : Text) : List Text :=
  ((Text.lines source).filter fun line => !isCommentLine line).map removeComments

/-- the canonical lines of a source text -/
def canonicalLines (source : Text) : List Text :=
  let broken := breakStatements (Text.unlines (codeLines source))
  ((Text.lines broken).map Text.trim).filter fun line => !line.isEmpty

/-- the source text in canonical lines -/
def canonical (source : Text) : Text := Text.unlines (canonicalLines source)

end ClassAtlas.Source
