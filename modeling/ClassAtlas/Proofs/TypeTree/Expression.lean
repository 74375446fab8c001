/-
Type expressions as they are written.

An expression is a name, a name with arguments in angle brackets, or a tuple of arguments in round ones; after it come
marks. An argument is an expression with blanks around it, and it may have a name of its own after further blanks, as
the elements of a tuple do. The parts carry what makes them well formed, so every value of these types can be written
(`Expression.render`) and has a tree (`Expression.tree`): a leaf keeps its marks, and the names of arguments are
dropped.

An array rank may hold commas only after the outermost expression; elsewhere the commas would separate arguments.
-/
import ClassAtlas.Proofs.Text
import ClassAtlas.TypeTree.Parse

namespace ClassAtlas.TypeTree

open Text (Blanks)

/-- a character that may stand in the name of a type -/
def isNamePart (c : Char) : Bool :=
  !(Text.isBlank c || c == ',' || c == '?' || c == '<' || c == '>' || c == '(' || c == ')' || c == '[' || c == ']')

/-- the name of a type, or of an argument -/
abbrev Name := { s : Text // s ≠ [] ∧ ∀ c ∈ s, isNamePart c = true }

/-- what may follow a type: a question mark, or an array rank with so many commas -/
inductive Mark where
  | nullable
  | rank (commas : Nat)
deriving DecidableEq, Repr

namespace Mark

def text : Mark → Text
  | nullable => ['?']
  | rank commas => '[' :: List.replicate commas ',' ++ [']']

def isSimple : Mark → Bool
  | nullable => true
  | rank commas => commas == 0

end Mark

/-- a mark without commas -/
abbrev SimpleMark := { m : Mark // m.isSimple = true }

/-- the marks as they are written -/
def marksText (marks : List Mark) : Text := marks.flatMap Mark.text

/-- the name of an argument, with the blanks before it -/
structure Label where
  gap : Blanks
  gap_ne : gap.1 ≠ []
  name : Name

def Label.text (l : Label) : Text := l.gap.1 ++ l.name.1

/-- a label, if there is one -/
def labelText (label : Option Label) : Text := (label.map Label.text).getD []

mutual

/-- an expression without the marks after it -/
inductive Shape where
  | plain (name : Name)
  | generic (name : Name) (arguments : Arguments)
  | tuple (elements : Arguments)

inductive Argument where
  | mk (before : Blanks) (shape : Shape) (marks : List SimpleMark) (label : Option Label) (after : Blanks)

/-- one or more arguments -/
inductive Arguments where
  | one (argument : Argument)
  | more (argument : Argument) (others : Arguments)

end

/-- a type expression -/
structure Expression where
  shape : Shape
  marks : List Mark

/-! ## Writing -/

def simpleText (marks : List SimpleMark) : Text := marksText (marks.map Subtype.val)

mutual

def Shape.render : Shape → Text
  | .plain name => name.1
  | .generic name arguments => name.1 ++ '<' :: arguments.render ++ ['>']
  | .tuple elements => '(' :: elements.render ++ [')']

def Argument.render : Argument → Text
  | .mk before shape marks label after => before.1 ++ (shape.render ++ simpleText marks ++ labelText label) ++ after.1

def Arguments.render : Arguments → Text
  | .one argument => argument.render
  | .more argument others => argument.render ++ ',' :: others.render

end

/-- an argument without the blanks around it -/
def Argument.core : Argument → Text
  | .mk _ shape marks label _ => shape.render ++ simpleText marks ++ labelText label

def Expression.render (e : Expression) : Text := e.shape.render ++ marksText e.marks

/-! ## Trees -/

mutual

/-- the tree of a shape that has these marks after it -/
def Shape.tree : Shape → Text → TypeTree
  | .plain name, marks => leaf (name.1 ++ marks)
  | .generic name arguments, _ => node name.1 arguments.trees
  | .tuple elements, _ => node [] elements.trees

def Argument.tree : Argument → TypeTree
  | .mk _ shape marks _ _ => shape.tree (simpleText marks)

def Arguments.trees : Arguments → List TypeTree
  | .one argument => [argument.tree]
  | .more argument others => argument.tree :: others.trees

end

def Expression.tree (e : Expression) : TypeTree := e.shape.tree (marksText e.marks)

/-! ## Names -/

mutual

/-- the names in the order in which they are written; a tuple counts as an empty one -/
def Shape.names : Shape → Text → List Text
  | .plain name, marks => [name.1 ++ marks]
  | .generic name arguments, _ => name.1 :: arguments.names
  | .tuple elements, _ => [] :: elements.names

def Argument.names : Argument → List Text
  | .mk _ shape marks _ _ => shape.names (simpleText marks)

def Arguments.names : Arguments → List Text
  | .one argument => argument.names
  | .more argument others => argument.names ++ others.names

end

def Expression.names (e : Expression) : List Text := e.shape.names (marksText e.marks)

mutual

theorem names_tree (shape : Shape) (marks : Text) : (shape.tree marks).names = shape.names marks := by
  cases shape with
  | plain name => rfl
  | generic name arguments =>
    simp only [Shape.tree, Shape.names, names, subtrees, List.map_cons, base]
    rw [names_trees arguments]
  | tuple elements =>
    simp only [Shape.tree, Shape.names, names, subtrees, List.map_cons, base]
    rw [names_trees elements]

theorem names_argumentTree (argument : Argument) : argument.tree.names = argument.names := by
  cases argument with
  | mk before shape marks label after => exact names_tree shape (simpleText marks)

theorem names_trees (arguments : Arguments) : (subtreesOfAll arguments.trees).map base = arguments.names := by
  cases arguments with
  | one argument =>
    simp only [Arguments.trees, Arguments.names, subtreesOfAll, List.append_nil]
    exact names_argumentTree argument
  | more argument others =>
    simp only [Arguments.trees, Arguments.names, subtreesOfAll, List.map_append]
    rw [names_trees others, ← names_argumentTree argument]
    rfl

end

end ClassAtlas.TypeTree
