/-
The compact layout of a report: JSON with short field names, in which an entry gives its file as a number. The table of
files lists the paths in the order of their first use.
-/
import ClassAtlas.Graph.Basic
import ClassAtlas.Json.Basic
import ClassAtlas.Report.Basic

namespace ClassAtlas

namespace ClassId

/-- name, namespace and project -/
def toTriple (c : ClassId) : Json := .texts [c.name, c.scope, c.project]

end ClassId

namespace Report

/-- an entry whose file has this number -/
def compactEntry (e : ClassEntry) (file : Nat) : Json :=
  .object [("c", .text e.id.name), ("d", .array (e.dependencies.map ClassId.toTriple)), ("f", .natural file),
    ("n", .text e.id.scope), ("p", .text e.id.project)]

/-- adds an entry to the table of files and to the written entries, latest first -/
def addCompact (acc : Interner Text × List Json) (e : ClassEntry) : Interner Text × List Json :=
  let (files, number) := acc.1.intern e.file.text
  (files, compactEntry e number :: acc.2)

def compactFailure (f : Failure) : Json := .texts [f.file.text, f.message]

def toCompactJson (r : Report) : Json :=
  let (files, entries) := r.entries.foldl addCompact (Interner.empty, [])
  .object [
    ("failures", .array (r.failures.map compactFailure)),
    ("files", .texts files.toList),
    ("meta", .object [
      ("classes", .natural r.entries.length),
      ("collisions", .natural r.collisions.length),
      ("edges", .natural (Graph.ofEntries r.entries).edgeCount),
      ("failures", .natural r.failures.length),
      ("files", .natural r.fileCount),
      ("format", .text "compact")]),
    ("records", .array entries.reverse)]

end Report

end ClassAtlas
