/-
The Markdown layout of a report: a summary line, one section for each project with its classes and their
dependencies, and then, where there are any, the cycles, the failures and the collisions.

Dependencies on the external project may be left out. The summary counts them all the same.
-/
import ClassAtlas.Graph.Cycle
import ClassAtlas.Grouping
import ClassAtlas.Report.Basic
import ClassAtlas.Resolution

namespace ClassAtlas.Report

/-- a text in code marks -/
def codeSpan (s : Text) : Text := '`' :: (s ++ ['`'])

/-- an item of a list -/
def bullet (s : Text) : Text := '-' :: ' ' :: s

def summary (r : Report) (edges : Nat) : Text :=
  ("FILES:" : Text) ++ Text.ofNat r.fileCount ++ (" CLASSES:" : Text) ++ Text.ofNat r.entries.length ++
    (" EDGES:" : Text) ++ Text.ofNat edges ++ (" FAILURES:" : Text) ++ Text.ofNat r.failures.length

def dependencyLine (c : ClassId) : Text :=
  bullet (c.qualifiedName ++ ' ' :: '[' :: (c.project ++ [']']))

/-- the dependencies that are shown -/
def shown (showExternal : Bool) (dependencies : List ClassId) : List ClassId :=
  dependencies.filter fun c => showExternal || c.project != Resolution.externalProject

def dependencyLines (dependencies : List ClassId) : List Text :=
  if dependencies.isEmpty then [bullet "(none)"] else dependencies.map dependencyLine

/-- the lines of one class -/
def entryLines (showExternal : Bool) (e : ClassEntry) : List Text :=
  [("### " : Text) ++ e.id.qualifiedName, codeSpan e.file.text, []] ++
    dependencyLines (shown showExternal e.dependencies) ++ [[]]

/-- the lines of one project -/
def projectLines (showExternal : Bool) (project : Text) (entries : List ClassEntry) : List Text :=
  [("## " : Text) ++ project, []] ++ entries.flatMap (entryLines showExternal)

/-- a heading and its items; nothing without items -/
def sectionLines (heading : Text) (items : List Text) : List Text :=
  if items.isEmpty then [] else [("## " : Text) ++ heading, []] ++ items.map bullet

/-- a section with an empty line after it -/
def spacedSection (heading : Text) (items : List Text) : List Text :=
  if items.isEmpty then [] else sectionLines heading items ++ [[]]

def cycleItem (cycle : List ClassId) : Text := List.intercalate (" <-> " : Text) (cycle.map ClassId.qualifiedName)

def failureItem (f : Failure) : Text := codeSpan f.file.text ++ (": " : Text) ++ f.message

def collisionItem (c : Collision) : Text :=
  codeSpan c.key ++ (": " : Text) ++ c.replacement.project ++ (" replaced " : Text) ++ c.previous.project

def markdownLines (showExternal : Bool) (r : Report) : List Text :=
  let graph := Graph.ofEntries r.entries
  [("# CLASS_DEPENDENCIES" : Text), summary r graph.edgeCount, []] ++
    (groupBy (fun e => e.id.project) r.entries).flatMap (fun g => projectLines showExternal g.1 g.2) ++
    spacedSection "CYCLES" (graph.cycles.map cycleItem) ++
    spacedSection "FAILURES" (r.failures.map failureItem) ++
    sectionLines "COLLISIONS" (r.collisions.map collisionItem)

def toMarkdown (showExternal : Bool) (r : Report) : Text := Text.unlines (markdownLines showExternal r)

end ClassAtlas.Report
