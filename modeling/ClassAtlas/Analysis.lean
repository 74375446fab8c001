/-
The analysis of projects in two passes.

The first pass registers the classes that all files declare. The second one reads every file again, outlines it and
resolves its references against the registry. A file that cannot be read in a pass fails there, and all failures of the
first pass come before those of the second.
-/
import ClassAtlas.Reader
import ClassAtlas.Report.Basic
import ClassAtlas.Resolution

namespace ClassAtlas

structure Project where
  name : Text
  files : List Path
deriving DecidableEq, Repr

namespace Analysis

/-- a file of a project and what reading it gave -/
structure Input where
  project : Text
  file : Path
  content : Except SourceError Text

/-- the files of all projects in their order -/
def inputs (reader : Reader) (projects : List Project) : List Input :=
  projects.flatMap fun p => p.files.map fun file => ⟨p.name, file, reader file⟩

/-- the classes that a source text declares in a project -/
def declaredIn (project : Text) (source : Text) : List ClassId :=
  let found := DeclaredNames.ofText source
  found.classNames.map fun name => ⟨name, found.scope, project⟩

/-- the classes that an input declares; none of an unreadable one -/
def declared (i : Input) : List ClassId :=
  match i.content with
  | .ok source => declaredIn i.project source
  | .error _ => []

/-- the entries of an input; none of an unreadable one -/
def entriesOf (registry : Registry) (i : Input) : List ClassEntry :=
  match i.content with
  | .ok source => Resolution.entries registry i.project i.file (FileOutline.ofText source)
  | .error _ => []

/-- the failure of an input in a phase -/
def failure? (phase : Phase) (i : Input) : Option Failure :=
  match i.content with
  | .ok _ => none
  | .error e => some ⟨i.project, i.file, phase, e.message⟩

/-- the report on projects whose files each pass reads anew, so that they may change in between -/
def runPasses (first second : Reader) (projects : List Project) : Report :=
  let registering := inputs first projects
  let registry := Registry.ofClasses (registering.flatMap declared)
  let extracting := inputs second projects
  { entries := extracting.flatMap (entriesOf registry)
    failures := registering.filterMap (failure? .registration) ++ extracting.filterMap (failure? .extraction)
    collisions := registry.collisions
    fileCount := registering.length }

/-- the report on projects whose files stay as they are -/
def run (reader : Reader) (projects : List Project) : Report := runPasses reader reader projects

end Analysis

end ClassAtlas
