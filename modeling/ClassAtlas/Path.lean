/-
Paths of files and directories.

A path is kept as it is written. Two paths name the same place when their components agree: repeated and trailing
slashes do not count, and neither does a point that stands for the directory itself, except at the very start.
-/
import ClassAtlas.Text.Basic

namespace ClassAtlas

structure Path where
  text : Text
deriving DecidableEq, Hashable, Repr

namespace Path

inductive Component where
  | root
  /-- a leading `.` -/
  | current
  /-- the directory above, `..` -/
  | parent
  | name (n : Text)
deriving DecidableEq, Hashable, Repr

/-- the parts between slashes -/
def pieces (s : Text) : List Text :=
  s.foldr (fun c acc => if c = '/' then [] :: acc else Text.consFirst c acc) [[]]

/-- the parts between slashes that are not empty -/
def segments (p : Path) : List Text := (pieces p.text).filter fun s => !s.isEmpty

def isAbsolute (p : Path) : Bool := p.text.head? == some '/'

def endsWithSlash (p : Path) : Bool := p.text.getLast? == some '/'

/-- the number of bytes from which on a path is too long to be followed -/
def byteLimit : Nat := 4096

def isTooLong (p : Path) : Bool := decide (byteLimit ≤ Text.byteLength p.text)

def dot : Text := ['.']

def dotDot : Text := ['.', '.']

/-- a segment as a component; none for a point -/
def component? (segment : Text) : Option Component :=
  if segment = dot then none else if segment = dotDot then some .parent else some (.name segment)

def components (p : Path) : List Component :=
  let start : List Component :=
    if p.isAbsolute then [.root] else if p.segments.head? = some dot then [.current] else []
  start ++ p.segments.filterMap component?

/-- the path of an entry of this directory -/
def child (p : Path) (name : Text) : Path :=
  if p.text.isEmpty || p.endsWithSlash then ⟨p.text ++ name⟩ else ⟨p.text ++ '/' :: name⟩

/-- the last component, if it is a name -/
def fileName? (p : Path) : Option Text :=
  match p.components.getLast? with
  | some (.name n) => some n
  | _ => none

/-- the components of the directories that hold this path, the nearest first -/
def directoriesAbove (p : Path) : List (List Component) :=
  let components := p.components
  (List.range components.length).reverse.map fun n => components.take n

end Path

/-- a file name without its suffix -/
def fileBase (name : Text) : Text :=
  match Text.splitLast? '.' name with
  | some (stem, _) => if stem.isEmpty then name else stem
  | none => name

/-- what comes after the last point of a file name, if something comes before it -/
def fileSuffix? (name : Text) : Option Text :=
  match Text.splitLast? '.' name with
  | some (stem, suffix) => if stem.isEmpty then none else some suffix
  | none => none

end ClassAtlas
