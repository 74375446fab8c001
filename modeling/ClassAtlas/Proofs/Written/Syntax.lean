/-
Files as they are written.

A file imports namespaces, may have a namespace of its own, and declares classes with bases, fields, constructors and
methods. The parts carry what makes them well formed, so every file can be written in every layout (`File.render`) and
says what it was made from (`File.outline`).

No name is a word that cannot be a type. A parameter's type is not a modifier of parameters, since `scoped x` is a
parameter of type `x`; and a result is not written `void`, which is the absence of one.
-/
import ClassAtlas.FileOutline
import ClassAtlas.Proofs.Canonical
import ClassAtlas.Proofs.TypeTree.Expression

namespace ClassAtlas.Written

/-- an ASCII identifier that is not a word with another meaning -/
def isIdentifier (s : Text) : Bool :=
  s.head?.any Pattern.isNameStart && s.all Pattern.isNameChar && !Vocabulary.isNonTypeWord s

/-- identifiers with points between them -/
def isDotted (s : Text) : Bool := (s.splitOn '.').all isIdentifier

abbrev Identifier := { s : Text // isIdentifier s = true ∧ s.length ≤ 128 }

/-- a dotted name of at most so many characters -/
abbrev Dotted (most : Nat) := { s : Text // isDotted s = true ∧ s.length ≤ most }

end ClassAtlas.Written

namespace ClassAtlas.TypeTree

mutual

/-- dotted names with arguments in angle brackets, at most one mark after each of them -/
def Shape.isOrdinary : Shape → Bool
  | .plain name => Written.isDotted name.1
  | .generic name arguments => Written.isDotted name.1 && arguments.isOrdinary
  | .tuple _ => false

/-- the blanks around an argument may not break the line -/
def Argument.isOrdinary : Argument → Bool
  | .mk before shape marks label after =>
    !before.1.contains '\n' && shape.isOrdinary && decide (marks.length ≤ 1) && label.isNone && !after.1.contains '\n'

def Arguments.isOrdinary : Arguments → Bool
  | .one argument => argument.isOrdinary
  | .more argument others => argument.isOrdinary && others.isOrdinary

end

/-- the lengths that a type of a member may have -/
def Shape.fits : Shape → Bool
  | .plain name => decide (name.1.length ≤ 128)
  | .generic name arguments => decide (name.1.length ≤ 128) && decide (arguments.render.length ≤ 256)
  | .tuple _ => false

end ClassAtlas.TypeTree

namespace ClassAtlas.Written

open TypeTree (Shape SimpleMark)

/-- a type without a mark, as bases are -/
structure Nominal where
  shape : Shape
  ordinary : shape.isOrdinary = true
  fits : shape.fits = true

/-- a type with at most one mark -/
structure TypeRef extends Nominal where
  mark : Option SimpleMark

def Nominal.render (t : Nominal) : Text := t.shape.render

def Nominal.tree (t : Nominal) : TypeTree := t.shape.tree []

def TypeRef.render (t : TypeRef) : Text := t.toNominal.render ++ TypeTree.simpleText t.mark.toList

def TypeRef.tree (t : TypeRef) : TypeTree := t.shape.tree (TypeTree.simpleText t.mark.toList)

structure Parameter where
  type : TypeRef
  name : Identifier
  unmodified : Vocabulary.isParameterWord type.render = false

abbrev Result := { t : TypeRef // t.render ≠ ("void" : Text) }

inductive Member where
  | field (type : TypeRef) (name : Identifier)
  | constructor (parameters : List Parameter)
  | method (result : Option Result) (name : Identifier) (parameters : List Parameter)

structure Class where
  name : Identifier
  /-- without bases the colon is not written either -/
  bases : List Nominal
  members : List Member

structure File where
  imports : List (Dotted 256)
  scope : Option (Dotted 256)
  classes : List Class

/-! ## Writing -/

def Parameter.render (p : Parameter) : Text := p.type.render ++ ' ' :: p.name.1

def parametersText (parameters : List Parameter) : Text := List.intercalate [',', ' '] (parameters.map Parameter.render)

/-- the parameters in parentheses, up to the end of the line -/
def parametersEnd (parameters : List Parameter) : Text := '(' :: (parametersText parameters ++ [')', ' ', '{'])

def resultText : Option Result → Text
  | some t => t.1.render
  | none => "void"

def braceLine : Text := ['}']

def fieldLine (type : TypeRef) (name : Identifier) : Text :=
  ("private" : Text) ++ ' ' :: (type.render ++ ' ' :: (name.1 ++ [';']))

def constructorLine (className : Identifier) (parameters : List Parameter) : Text :=
  ("public" : Text) ++ ' ' :: (className.1 ++ parametersEnd parameters)

def methodLine (result : Option Result) (name : Identifier) (parameters : List Parameter) : Text :=
  ("public" : Text) ++ ' ' :: (resultText result ++ ' ' :: (name.1 ++ parametersEnd parameters))

/-- the statements and braces of a member -/
def Member.lines (className : Identifier) : Member → List Text
  | field type name => [fieldLine type name]
  | constructor parameters => [constructorLine className parameters, braceLine]
  | method result name parameters => [methodLine result name parameters, braceLine]

/-- the bases with the colon before them -/
def basesText : List Nominal → Text
  | [] => []
  | bases => ' ' :: ':' :: ' ' :: List.intercalate [',', ' '] (bases.map Nominal.render)

namespace Class

def header (c : Class) : Text := ("class" : Text) ++ ' ' :: (c.name.1 ++ (basesText c.bases ++ [' ', '{']))

/-- the lines after the header -/
def body (c : Class) : List Text := c.members.flatMap (Member.lines c.name) ++ [braceLine]

def lines (c : Class) : List Text := c.header :: c.body

end Class

def importLine (name : Dotted 256) : Text := ("using" : Text) ++ ' ' :: (name.1 ++ [';'])

def scopeLine (name : Dotted 256) : Text := ("namespace" : Text) ++ ' ' :: (name.1 ++ [';'])

namespace File

def lines (f : File) : List Text :=
  f.imports.map importLine ++ (f.scope.toList.map scopeLine ++ f.classes.flatMap Class.lines)

/-- the file with any blanks and line breaks after its statements and braces -/
def render (f : File) (layout : Nat → Text.Blanks) : Text := Source.laidOut f.lines layout

end File

/-! ## Meaning -/

namespace Member

def type? : Member → Option TypeTree
  | field type _ => some type.tree
  | _ => none

def constructor? (className : Text) : Member → Option Constructor
  | constructor parameters => some ⟨className, parameters.map fun p => p.type.tree⟩
  | _ => none

def method? : Member → Option Method
  | method result _ parameters => some ⟨result.map fun t => t.1.tree, parameters.map fun p => p.type.tree⟩
  | _ => none

end Member

/-- the trees of the bases, except that of the root of all classes; none if there is no list -/
def basesOf? : List Nominal → Option (List TypeTree)
  | [] => none
  | bases => some ((bases.map Nominal.tree).filter (!Outline.isRootBase ·))

def Class.outline (c : Class) : Outline where
  name := c.name.1
  bases := basesOf? c.bases
  constructors := c.members.filterMap (Member.constructor? c.name.1)
  methods := c.members.filterMap Member.method?
  memberTypes := c.members.filterMap Member.type?
  created := []
  called := []

def File.outline (f : File) : FileOutline where
  scope := (f.scope.map Subtype.val).getD []
  imports := f.imports.map Subtype.val
  classes := f.classes.map Class.outline

end ClassAtlas.Written
