/-
The compact layout of a report loses nothing of its entries.

The table of files grows while the entries are written. At every moment it lists the paths met so far, each once and in
the order of first use, and every entry written so far names its path by a number that stays right whatever is added
later (`Compacted`; `Compacted.add` is the step, `Compacted.fold` the whole run). `compactEntries?` decodes the layout,
and gives back the entries.
-/
import Mathlib.Data.List.Forall2
import ClassAtlas.Proofs.Graph.Construction
import ClassAtlas.Proofs.Report.Full

namespace ClassAtlas

open Json (IsExact listOf?_array listOf?_map)

/-! ## Decoding -/

/-- the class of a triple -/
def ClassId.ofTriple? (v : Json) : Option ClassId := do
  match ← v.listOf? Json.text? with
  | [name, scope, project] => return ⟨name, scope, project⟩
  | _ => none

theorem ClassId.ofTriple?_toTriple (c : ClassId) : ClassId.ofTriple? c.toTriple = some c := rfl

namespace Report

/-- the entry that an object of the compact layout stands for, given the table of files -/
def compactRecord? (files : List Text) (v : Json) : Option ClassEntry := do
  let name ← (← v.field? "c").text?
  let scope ← (← v.field? "n").text?
  let project ← (← v.field? "p").text?
  let file ← files[← (← v.field? "f").natural?]?
  let dependencies ← (← v.field? "d").listOf? ClassId.ofTriple?
  return ⟨⟨name, scope, project⟩, ⟨file⟩, dependencies⟩

/-- the entries of a compact layout -/
def compactEntries? (v : Json) : Option (List ClassEntry) := do
  let files ← (← v.field? "files").listOf? Json.text?
  (← v.field? "records").listOf? (compactRecord? files)

/-- the path and the message of a failure -/
def compactFailure? (v : Json) : Option (Path × Text) := do
  match ← v.listOf? Json.text? with
  | [file, message] => return (⟨file⟩, message)
  | _ => none

/-- the failures of a compact layout -/
def compactFailures? (v : Json) : Option (List (Path × Text)) := do
  (← v.field? "failures").listOf? compactFailure?

/-- an object gives the parts of an entry, its file by a number in the table -/
structure StandsFor (files : List Text) (e : ClassEntry) (v : Json) : Prop where
  name : v.field? "c" = some (.text e.id.name)
  scope : v.field? "n" = some (.text e.id.scope)
  project : v.field? "p" = some (.text e.id.project)
  file : ∃ number, v.field? "f" = some (.natural number) ∧ files[number]? = some e.file.text
  dependencies : v.field? "d" = some (.array (e.dependencies.map ClassId.toTriple))

theorem StandsFor.compactRecord? {files : List Text} {e : ClassEntry} {v : Json} (h : StandsFor files e v) :
    compactRecord? files v = some e := by
  obtain ⟨number, hnumber, hfile⟩ := h.file
  simp only [Report.compactRecord?, h.name, h.scope, h.project, hnumber, h.dependencies, Option.bind_eq_bind,
    Option.bind_some, Json.text?, Json.natural, Json.natural?, hfile, listOf?_array ClassId.ofTriple?_toTriple]
  rfl

theorem standsFor_compactEntry {files : List Text} {e : ClassEntry} {number : Nat}
    (h : files[number]? = some e.file.text) : StandsFor files e (compactEntry e number) :=
  ⟨rfl, rfl, rfl, ⟨number, rfl, h⟩, rfl⟩

/-! ## Writing the entries -/

/-- the paths of entries, as they are written -/
def paths (es : List ClassEntry) : List Text := es.map fun e => e.file.text

/-- entries that were written so far, latest first, with the table that they were written with -/
structure Compacted (files : Interner Text) (es : List ClassEntry) (written : List Json) : Prop where
  table : files.toList = distinct (paths es)
  entries : List.Forall₂ (fun e v => ∃ number, files.items[number]? = some e.file.text ∧ v = compactEntry e number) es
    written.reverse

theorem Compacted.empty : Compacted .empty [] [] := ⟨rfl, .nil⟩

theorem Compacted.add {files : Interner Text} {es : List ClassEntry} {written : List Json}
    (h : Compacted files es written) (e : ClassEntry) :
    Compacted (addCompact (files, written) e).1 (es ++ [e]) (addCompact (files, written) e).2 := by
  constructor
  · rw [paths, List.map_append]
    exact Interner.toList_intern_distinct h.table e.file.text
  · -- the numbers given before stay right in the new table
    simp only [addCompact, List.reverse_cons]
    apply List.rel_append
    · apply h.entries.imp
      rintro e' v ⟨number, hnumber, rfl⟩
      exact ⟨number, Interner.getElem?_intern_of_some hnumber e.file.text, rfl⟩
    · exact .cons ⟨_, Interner.getElem?_intern files e.file.text, rfl⟩ .nil

theorem Compacted.fold {files : Interner Text} {es : List ClassEntry} {written : List Json}
    (h : Compacted files es written) (es' : List ClassEntry) :
    Compacted (es'.foldl addCompact (files, written)).1 (es ++ es') (es'.foldl addCompact (files, written)).2 := by
  induction es' generalizing files es written with
  | nil => simpa using h
  | cons e es' ih => simpa using ih (h.add e)

theorem compacted_entries (r : Report) : Compacted (r.entries.foldl addCompact (.empty, [])).1 r.entries
    (r.entries.foldl addCompact (.empty, [])).2 := by
  simpa using Compacted.empty.fold r.entries

/-! ## The whole layout -/

theorem isExact_compactEntry (e : ClassEntry) (number : Nat) : IsExact (compactEntry e number) := by
  simp [compactEntry, ClassId.toTriple]

theorem Compacted.isExact {files : Interner Text} {es : List ClassEntry} {written : List Json}
    (h : Compacted files es written) : ∀ v ∈ written, IsExact v := by
  have hexact : List.Forall₂ (fun v _ => IsExact v ∧ True) written.reverse es := by
    apply h.entries.flip.imp
    rintro v e ⟨number, -, rfl⟩
    exact ⟨isExact_compactEntry e number, trivial⟩
  intro v hv
  exact ((List.forall₂_and_left _ _).1 hexact).1 v (List.mem_reverse.2 hv)

theorem isExact_toCompactJson (r : Report) : IsExact r.toCompactJson := by
  simpa [toCompactJson, compactFailure] using (compacted_entries r).isExact

theorem Compacted.standsFor {files : Interner Text} {es : List ClassEntry} {written : List Json}
    (h : Compacted files es written) : List.Forall₂ (StandsFor files.toList) es written.reverse := by
  apply h.entries.imp
  rintro e v ⟨number, hnumber, rfl⟩
  exact standsFor_compactEntry (by rwa [Interner.getElem?_toList])

theorem listOf?_texts (ss : List Text) : (Json.texts ss).listOf? Json.text? = some ss := by
  have htext : ∀ s, (Json.text s).text? = some s := fun _ => rfl
  exact listOf?_array htext ss

theorem compactEntries?_toCompactJson (r : Report) : compactEntries? r.toCompactJson = some r.entries := by
  have hrun := compacted_entries r
  have hfiles : r.toCompactJson.field? "files" =
      some (.texts (r.entries.foldl addCompact (.empty, [])).1.toList) := rfl
  have hrecords : r.toCompactJson.field? "records" =
      some (.array (r.entries.foldl addCompact (.empty, [])).2.reverse) := rfl
  simp only [compactEntries?, hfiles, hrecords, Option.bind_eq_bind, Option.bind_some, listOf?_texts]
  exact Json.mapM_eq_some (hrun.standsFor.imp fun e v hv => hv.compactRecord?)

theorem compactFailures?_toCompactJson (r : Report) :
    compactFailures? r.toCompactJson = some (r.failures.map fun f => (f.file, f.message)) := by
  have hfailure : ∀ f, compactFailure? (compactFailure f) = some (f.file, f.message) := fun _ => rfl
  exact listOf?_map hfailure r.failures

/-- **The compact layout loses nothing of the entries.** In the value that is read back, the table lists each path once,
in the order of first use. There is one object for each entry, which names the path by its number in the table, so the
entries can be decoded, and so can the paths and messages of the failures. The number of edges counts each dependency of
a class once. -/
theorem read_compact (r : Report) (layout : Json.Layout) :
    ∃ v files records, Json.read? (r.render (.compact layout)) = some v ∧
      v.field? "files" = some (.texts files) ∧ files.Nodup ∧ files = distinct (paths r.entries) ∧
      v.field? "records" = some (.array records) ∧ List.Forall₂ (StandsFor files) r.entries records ∧
      compactEntries? v = some r.entries ∧
      compactFailures? v = some (r.failures.map fun f => (f.file, f.message)) ∧
      ∃ counts, v.field? "meta" = some counts ∧
        counts.field? "edges" = some (.natural (Graph.met r.entries).toFinset.card) := by
  have hrun := compacted_entries r
  refine ⟨r.toCompactJson, _, _, Json.read?_render (isExact_toCompactJson r) layout, rfl, ?_, hrun.table, rfl,
    hrun.standsFor, compactEntries?_toCompactJson r, compactFailures?_toCompactJson r, _, rfl, ?_⟩
  · rw [hrun.table]
    exact nodup_distinct _
  · rw [← Graph.edgeCount_ofEntries]
    rfl

end Report

end ClassAtlas
