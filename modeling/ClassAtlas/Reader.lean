/-
Readers, which give the text of a file, and the errors that keep them from it.

A source table is a reader that holds its texts; a path finds a text under any path that names the same place.
-/
import Std.Data.HashMap
import ClassAtlas.Path

namespace ClassAtlas

/-- what the file system answers when it cannot do what is asked -/
inductive SystemError where
  | notFound
  | notDirectory
  | isDirectory
  | nameTooLong
  /-- a path with a character of code 0 -/
  | nulInPath
deriving DecidableEq, Repr

namespace SystemError

def message : SystemError → Text
  | notFound => "No such file or directory (os error 2)"
  | notDirectory => "Not a directory (os error 20)"
  | isDirectory => "Is a directory (os error 21)"
  | nameTooLong => "File name too long (os error 36)"
  | nulInPath => "file name contained an unexpected NUL byte"

end SystemError

inductive SourceError where
  | system (path : Path) (cause : SystemError)
  /-- a source table has no text for the path -/
  | unregistered (path : Path)
deriving DecidableEq, Repr

namespace SourceError

def message : SourceError → Text
  | system path cause => ("failed to read " : Text) ++ path.text ++ (": " : Text) ++ cause.message
  | unregistered path => ("no source registered for " : Text) ++ path.text

end SourceError

/-- gives the text of a file -/
abbrev Reader := Path → Except SourceError Text

/-- source texts by the components of their paths -/
structure SourceTable where
  texts : Std.HashMap (List Path.Component) Text := {}

namespace SourceTable

/-- adds a text; it replaces one under the same path -/
def insert (t : SourceTable) (path : Path) (source : Text) : SourceTable := ⟨t.texts.insert path.components source⟩

def ofList (files : List (Path × Text)) : SourceTable := files.foldl (fun t f => t.insert f.1 f.2) {}

def read (t : SourceTable) : Reader := fun path =>
  match t.texts[path.components]? with
  | some source => .ok source
  | none => .error (.unregistered path)

end SourceTable

end ClassAtlas
