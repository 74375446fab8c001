/-
Comments on one line.

A block comment is removed if it ends on the line where it starts; this does not look at literals. A line comment is
cut off where its two slashes stand outside a literal.
-/
import ClassAtlas.Nesting.Search

namespace ClassAtlas.Source

/-- the text after the end of a block comment -/
def closeComment? : Text → Option Text
  | [] => none
  | '*' :: '/' :: rest => some rest
  | _ :: rest => closeComment? rest

theorem length_closeComment?_lt {s after : Text} (h : closeComment? s = some after) : after.length < s.length := by
  fun_induction closeComment? s with
  | case1 => simp at h
  | case2 rest =>
    obtain rfl := by simpa using h
    simp only [List.length_cons]
    omega
  | case3 c rest _ ih =>
    have := ih h
    simp only [List.length_cons]
    omega

/-- the line without the block comments that end on it. Where none ends any more the line stays as it is. -/
def removeBlockComments : Text → Text
  | [] => []
  | '/' :: '*' :: rest =>
    match _h : closeComment? rest with
    | some after => removeBlockComments after
    | none => '/' :: '*' :: rest
  | c :: rest => c :: removeBlockComments rest
termination_by s => s.length
decreasing_by
  · have := length_closeComment?_lt _h
    simp only [List.length_cons]
    omega
  · simp

def lineComment : Text := ['/', '/']

/-- a line that holds a line comment only -/
def isCommentLine (line : Text) : Bool := lineComment.isPrefixOf (Text.trimStart line)

/-- the line up to a line comment that starts outside a literal -/
def removeLineComment (line : Text) : Text := Nesting.before Nesting.Delimiters.literals lineComment line

end ClassAtlas.Source
