/-
Workspaces: a tree of files with a current directory.

A path is followed segment by segment. A file cannot be passed through, a slash at the end asks for a directory, and
`..` leads back to the directory that holds the current one. A name has at most 255 bytes, and a path fewer than
`Path.byteLimit`.

`write` creates the file if it is not there, in a directory that is. It changes no other file.
-/
import ClassAtlas.Reader
import ClassAtlas.Text.Utf8
import ClassAtlas.Workspace.Tree

namespace ClassAtlas

structure Workspace where
  root : Tree
  /-- the current directory -/
  current : Place

namespace Workspace

/-- an empty directory at a place, which is current -/
def empty (current : Place) : Workspace := ⟨Tree.put (.directory []) current none, current⟩

def node? (w : Workspace) (place : Place) : Option Tree := w.root.node? place

/-- is there a directory at the place? -/
def hasDirectory (w : Workspace) (place : Place) : Bool := (w.node? place).any Tree.isDirectory

/-- where a path starts -/
def start (w : Workspace) (path : Path) : Place := if path.isAbsolute then [] else w.current

/-- follows one segment from a directory -/
def step (w : Workspace) (place : Place) (segment : Text) : Except SystemError Place :=
  match w.node? place with
  | none => .error .notFound
  | some (.file _) => .error .notDirectory
  | some t =>
    if segment = Path.dot then .ok place
    else if segment = Path.dotDot then .ok place.dropLast
    else if Text.byteLength segment > 255 then .error .nameTooLong
    else if (t.entry? segment).isSome then .ok (place ++ [segment])
    else .error .notFound

/-- follows segments -/
def follow (w : Workspace) (place : Place) (segments : List Text) : Except SystemError Place :=
  segments.foldlM w.step place

/-- what is wrong with a path before it is followed -/
def malformed? (path : Path) : Option SystemError :=
  if path.text.contains (Char.ofNat 0) then some .nulInPath
  else if path.text.isEmpty then some .notFound
  else if path.isTooLong then some .nameTooLong
  else none

/-- the place that a path names -/
def resolve (w : Workspace) (path : Path) : Except SystemError Place :=
  match malformed? path with
  | some e => .error e
  | none =>
    match w.follow (w.start path) path.segments with
    | .error e => .error e
    | .ok place => if path.endsWithSlash && !w.hasDirectory place then .error .notDirectory else .ok place

/-- the bytes of a file -/
def readBytes (w : Workspace) (path : Path) : Except SystemError (List UInt8) :=
  match w.resolve path with
  | .error e => .error e
  | .ok place =>
    match w.node? place with
    | some (.file content) => .ok content
    | some (.directory _) => .error .isDirectory
    | none => .error .notFound

/-- the content of a file that holds the UTF-8 form of a text -/
def content? (w : Workspace) (path : Path) : Option Text :=
  match w.readBytes path with
  | .ok content => Text.ofUtf8? content
  | .error _ => none

/-- the text of a file, whatever its bytes are -/
def read (w : Workspace) : Reader := fun path =>
  match w.readBytes path with
  | .ok content => .ok (Text.decodeUtf8 content)
  | .error e => .error (.system path e)

/-- why no file of this name can be written into a directory; the flag tells whether a slash comes after the name -/
def unwritable? (directory : Tree) (name : Text) (slash : Bool) : Option SystemError :=
  if name = Path.dot ∨ name = Path.dotDot ∨ slash then some .isDirectory
  else if Text.byteLength name > 255 then some .nameTooLong
  else if (directory.entry? name).any Tree.isDirectory then some .isDirectory
  else none

/-- the place of a file of this name in the directory at `parent` -/
def targetIn (w : Workspace) (parent : Place) (name : Text) (slash : Bool) : Except SystemError Place :=
  match w.node? parent with
  | none => .error .notFound
  | some (.file _) => .error .notDirectory
  | some (.directory entries) =>
    match unwritable? (.directory entries) name slash with
    | some e => .error e
    | none => .ok (parent ++ [name])

/-- the place at which a file of this path is written -/
def target (w : Workspace) (path : Path) : Except SystemError Place :=
  match malformed? path, path.segments.getLast? with
  | some e, _ => .error e
  | none, none => .error .isDirectory
  | none, some name =>
    match w.follow (w.start path) path.segments.dropLast with
    | .error e => .error e
    | .ok parent => w.targetIn parent name path.endsWithSlash

/-- the workspace with this node at a place -/
def put (w : Workspace) (place : Place) (node : Tree) : Workspace :=
  { w with root := Tree.put node place (some w.root) }

/-- writes a file -/
def write (w : Workspace) (path : Path) (content : Text) : Except SystemError Workspace :=
  (w.target path).map fun place => w.put place (.file (Text.encodeUtf8 content))

/-! ## Setting up -/

/-- the place that a segment leads to, if it is there -/
def enter (place : Place) (segment : Text) : Place :=
  if segment = Path.dot then place else if segment = Path.dotDot then place.dropLast else place ++ [segment]

/-- the place that a path names if every directory on the way were there -/
def placeOf (w : Workspace) (path : Path) : Place := path.segments.foldl enter (w.start path)

/-- makes a directory and those that hold it, unless they are there -/
def addDirectory (w : Workspace) (path : Path) : Workspace :=
  let place := w.placeOf path
  if w.hasDirectory place then w else w.put place (.directory [])

/-- adds a file and the directories that hold it -/
def addFile (w : Workspace) (path : Path) (content : List UInt8) : Workspace := w.put (w.placeOf path) (.file content)

end Workspace

end ClassAtlas
