/-
Chunks: the lines that belong to one class.

A line that declares a class starts a chunk, which reaches to the next such line or to the end. A class declared
inside another one therefore takes over the rest of the lines.
-/
import ClassAtlas.Pattern.Name

namespace ClassAtlas.Source

/-- a class declaration; its value is the name of the class -/
def classPattern : Pattern Text := do
  Pattern.literal "class"
  Pattern.someBlanks
  let declared ← Pattern.capture Pattern.identifier
  Pattern.notBeforeWord
  return declared

/-- the first class declaration on a line -/
def classMatch? (line : Text) : Option (Match Text) := ((classPattern.atWordStarts line).head?).map Prod.snd

/-- the name of the class that a line declares -/
def classNameOf? (line : Text) : Option Text := (classMatch? line).map Match.value

/-- the numbers of the lines that declare a class -/
def chunkStarts (lines : List Text) : List Nat :=
  (lines.zipIdx.filter fun l => (classMatch? l.1).isSome).map Prod.snd

/-- the chunks as half-open ranges of line numbers -/
def chunkSpans (lines : List Text) : List (Nat × Nat) :=
  let starts := chunkStarts lines
  starts.zip (starts.tail ++ [lines.length])

/-- the lines of a half-open range -/
def slice (lines : List Text) (range : Nat × Nat) : List Text := (lines.drop range.1).take (range.2 - range.1)

/-- the chunks -/
def chunks (lines : List Text) : List (List Text) := (chunkSpans lines).map (slice lines)

end ClassAtlas.Source
