/-
The full layout of a report: all of it as JSON, the fields of each object in the order of their names.

`ofJson?` reads a report back. It wants every field with its type and passes over others. An object may also be given
as the array of its fields, in the order in which they are listed here, and a phase as an object with that single
field, which is null. A file count is below `countLimit`.
-/
import ClassAtlas.Json.Basic
import ClassAtlas.Report.Basic

namespace ClassAtlas

namespace ClassId

def toJson (c : ClassId) : Json :=
  .object [("class_name", .text c.name), ("namespace", .text c.scope), ("project_name", .text c.project)]

def ofJson? (v : Json) : Option ClassId := do
  match ← v.record? ["class_name", "namespace", "project_name"] with
  | [name, scope, project] => return ⟨← name.text?, ← scope.text?, ← project.text?⟩
  | _ => none

end ClassId

namespace ClassEntry

def toJson (e : ClassEntry) : Json :=
  .object [("class_name", .text e.id.name), ("dependencies", .array (e.dependencies.map ClassId.toJson)),
    ("file_path", .text e.file.text), ("namespace", .text e.id.scope), ("project_name", .text e.id.project)]

def ofJson? (v : Json) : Option ClassEntry := do
  match ← v.record? ["class_name", "namespace", "project_name", "file_path", "dependencies"] with
  | [name, scope, project, file, dependencies] =>
    return ⟨⟨← name.text?, ← scope.text?, ← project.text?⟩, ⟨← file.text?⟩, ← dependencies.listOf? ClassId.ofJson?⟩
  | _ => none

end ClassEntry

namespace Phase

def toJson (p : Phase) : Json := .text p.name

def ofJson? : Json → Option Phase
  | .text s => ofName? s
  | .object [(s, .null)] => ofName? s
  | _ => none

end Phase

namespace Failure

def toJson (f : Failure) : Json :=
  .object [("file_path", .text f.file.text), ("message", .text f.message), ("phase", f.phase.toJson),
    ("project_name", .text f.project)]

def ofJson? (v : Json) : Option Failure := do
  match ← v.record? ["project_name", "file_path", "phase", "message"] with
  | [project, file, phase, message] =>
    return ⟨← project.text?, ⟨← file.text?⟩, ← Phase.ofJson? phase, ← message.text?⟩
  | _ => none

end Failure

namespace Owner

def toJson (o : Owner) : Json := .object [("namespace", .text o.scope), ("project_name", .text o.project)]

def ofJson? (v : Json) : Option Owner := do
  match ← v.record? ["namespace", "project_name"] with
  | [scope, project] => return ⟨← scope.text?, ← project.text?⟩
  | _ => none

end Owner

namespace Collision

def toJson (c : Collision) : Json :=
  .object [("key", .text c.key), ("previous", c.previous.toJson), ("replacement", c.replacement.toJson)]

def ofJson? (v : Json) : Option Collision := do
  match ← v.record? ["key", "previous", "replacement"] with
  | [key, previous, replacement] => return ⟨← key.text?, ← Owner.ofJson? previous, ← Owner.ofJson? replacement⟩
  | _ => none

end Collision

namespace Report

def toJson (r : Report) : Json :=
  .object [("collisions", .array (r.collisions.map Collision.toJson)),
    ("failures", .array (r.failures.map Failure.toJson)), ("files_analyzed", .natural r.fileCount),
    ("records", .array (r.entries.map ClassEntry.toJson))]

/-- a file count -/
def count? (v : Json) : Option Nat := v.natural?.filter fun n => n < countLimit

def ofJson? (v : Json) : Option Report := do
  match ← v.record? ["records", "failures", "collisions", "files_analyzed"] with
  | [entries, failures, collisions, fileCount] =>
    return ⟨← entries.listOf? ClassEntry.ofJson?, ← failures.listOf? Failure.ofJson?,
      ← collisions.listOf? Collision.ofJson?, ← count? fileCount⟩
  | _ => none

end Report

end ClassAtlas
