/-
Finding the projects below a directory.

The walk lists the files below the directory in the order of their names. It passes over hidden directories and those
that hold build products or packages, and it cannot enter a directory whose path is too long; the path of a file may
have any length. A directory with a project file is the home of a project, which is named
after the first such file in it. A source file belongs to the project of the nearest directory above it that is the
home of one, or else to a project named after the directory that was asked for. Projects of one name are one project.
-/
import ClassAtlas.Analysis
import ClassAtlas.Grouping
import ClassAtlas.Workspace.Basic

namespace ClassAtlas

inductive DiscoveryError where
  | notDirectory (path : Path)
deriving DecidableEq, Repr

def DiscoveryError.message : DiscoveryError → Text
  | notDirectory path => path.text ++ (" is not a directory" : Text)

namespace Discovery

def sourceSuffix : Text := "cs"

def projectSuffix : Text := "csproj"

def passedOver : List Text := ["bin", "obj", "node_modules", "packages"]

/-- a directory that the walk does not enter -/
def isPassedOver (name : Text) : Bool := name.head? == some '.' || passedOver.contains name

mutual

/-- the files below a node, which has this path; none if it is a directory that cannot be entered -/
def filesBelow (path : Path) : Tree → List Path
  | .file _ => [path]
  | .directory entries =>
    if path.isTooLong then []
    else ((filesOfEntries path entries).mergeSort fun a b => textLe a.1 b.1).flatMap Prod.snd

/-- the files below each entry of a directory -/
def filesOfEntries (path : Path) : List (Text × Tree) → List (Text × List Path)
  | [] => []
  | (name, t) :: rest =>
    (name, if t.isDirectory && isPassedOver name then [] else filesBelow (path.child name) t) ::
      filesOfEntries path rest

end

/-- does the file have this suffix, in letters of either case? -/
def hasSuffix (suffix : Text) (file : Path) : Bool :=
  ((file.fileName?).bind fileSuffix?).any fun s => Text.sameIgnoringCase s suffix

/-- the homes of projects with the names of the projects; the first project file of a directory counts -/
def projectHomes (files : List Path) : Std.HashMap (List Path.Component) Text :=
  (files.filter (hasSuffix projectSuffix)).foldl (fun homes file =>
    homes.insertIfNew file.components.dropLast (fileBase (file.fileName?.getD []))) {}

/-- the project that a file belongs to -/
def projectOf (homes : Std.HashMap (List Path.Component) Text) (fallback : Text) (file : Path) : Text :=
  (file.directoriesAbove.findSome? fun directory => homes[directory]?).getD fallback

/-- the projects with these files -/
def group (fallback : Text) (files : List Path) : List Project :=
  let homes := projectHomes files
  (groupBy (projectOf homes fallback) (files.filter (hasSuffix sourceSuffix))).map fun g => ⟨g.1, g.2⟩

/-- the name of a project without a project file -/
def nameOfRoot (root : Path) (place : Place) : Text := (place.getLast?.or root.fileName?).getD "root"

/-- the projects below a directory -/
def projects (w : Workspace) (root : Path) : Except DiscoveryError (List Project) :=
  match w.resolve root with
  | .error _ => .error (.notDirectory root)
  | .ok place =>
    match w.node? place with
    | some (.directory entries) => .ok (group (nameOfRoot root place) (filesBelow root (.directory entries)))
    | _ => .error (.notDirectory root)

/-- the report on the projects below a directory -/
def analyze (w : Workspace) (root : Path) : Except DiscoveryError Report := do
  return Analysis.run w.read (← projects w root)

end Discovery

end ClassAtlas
