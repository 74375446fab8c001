/-
The full layout of a report loses nothing.

Every part of a report is read back from the value that it is written as, a list from the values of its elements. No
part of the value is a decimal, so the value in turn is read back from its text.
-/
import Mathlib.Data.List.Forall2
import ClassAtlas.Proofs.Json.RoundTrip
import ClassAtlas.Report.Style

namespace ClassAtlas

namespace Json

variable {α β : Type} {write : α → Json}

theorem mapM_eq_some {read : Json → Option α} {l : List α} {vs : List Json}
    (h : List.Forall₂ (fun a v => read v = some a) l vs) : vs.mapM read = some l := by
  induction h with
  | nil => rfl
  | cons ha _ ih => simp [List.mapM_cons, ha, ih]

theorem listOf?_map {read : Json → Option β} {f : α → β} (h : ∀ a, read (write a) = some (f a)) (l : List α) :
    (array (l.map write)).listOf? read = some (l.map f) := by
  apply mapM_eq_some
  rw [List.forall₂_map_left_iff, List.forall₂_map_right_iff, List.forall₂_same]
  exact fun a _ => h a

theorem listOf?_array {read : Json → Option α} (h : ∀ a, read (write a) = some a) (l : List α) :
    (array (l.map write)).listOf? read = some l := by
  simpa using listOf?_map (f := id) h l

end Json

open Json (IsExact listOf?_array)

/-! ## Parts of a report -/

theorem ClassId.ofJson?_toJson (c : ClassId) : ClassId.ofJson? c.toJson = some c := rfl

@[simp] theorem ClassId.isExact_toJson (c : ClassId) : IsExact c.toJson := by
  simp [toJson]

theorem ClassEntry.ofJson?_toJson (e : ClassEntry) : ClassEntry.ofJson? e.toJson = some e :=
  calc ClassEntry.ofJson? e.toJson
    _ = ((Json.array (e.dependencies.map ClassId.toJson)).listOf? ClassId.ofJson?).bind fun dependencies =>
        some ⟨e.id, e.file, dependencies⟩ := rfl
    _ = some e := by rw [listOf?_array ClassId.ofJson?_toJson, Option.bind_some]

@[simp] theorem ClassEntry.isExact_toJson (e : ClassEntry) : IsExact e.toJson := by
  simp [toJson]

theorem Phase.ofJson?_toJson (p : Phase) : Phase.ofJson? p.toJson = some p := by
  cases p <;> decide

theorem Failure.ofJson?_toJson (f : Failure) : Failure.ofJson? f.toJson = some f :=
  calc Failure.ofJson? f.toJson
    _ = (Phase.ofJson? f.phase.toJson).bind fun phase => some ⟨f.project, f.file, phase, f.message⟩ := rfl
    _ = some f := by rw [Phase.ofJson?_toJson, Option.bind_some]

@[simp] theorem Failure.isExact_toJson (f : Failure) : IsExact f.toJson := by
  simp [toJson, Phase.toJson]

theorem Collision.ofJson?_toJson (c : Collision) : Collision.ofJson? c.toJson = some c := rfl

@[simp] theorem Collision.isExact_toJson (c : Collision) : IsExact c.toJson := by
  simp [toJson, Owner.toJson]

/-! ## Reports -/

namespace Report

theorem ofJson?_toJson {r : Report} (h : r.fileCount < countLimit) : ofJson? r.toJson = some r := by
  have hcount : count? (.natural r.fileCount) = some r.fileCount := by
    simp [count?, Json.natural, Json.natural?, h]
  calc ofJson? r.toJson
    _ = ((Json.array (r.entries.map ClassEntry.toJson)).listOf? ClassEntry.ofJson?).bind fun entries =>
        ((Json.array (r.failures.map Failure.toJson)).listOf? Failure.ofJson?).bind fun failures =>
        ((Json.array (r.collisions.map Collision.toJson)).listOf? Collision.ofJson?).bind fun collisions =>
        (count? (.natural r.fileCount)).bind fun fileCount => some ⟨entries, failures, collisions, fileCount⟩ := rfl
    _ = some r := by
      rw [listOf?_array ClassEntry.ofJson?_toJson, listOf?_array Failure.ofJson?_toJson,
        listOf?_array Collision.ofJson?_toJson, hcount]
      rfl

theorem isExact_toJson (r : Report) : IsExact r.toJson := by
  simp [toJson]

/-- **The full layout loses nothing.** Whatever a report holds, it is read back from its text, on one line or many. -/
theorem read_full (r : Report) (h : r.fileCount < countLimit) (layout : Json.Layout) :
    (Json.read? (r.render (.full layout))).bind ofJson? = some r := by
  rw [render, Json.read?_render (isExact_toJson r), Option.bind_some, ofJson?_toJson h]

/-- quotation marks, backslashes and control characters in names, a path that is not in its shortest form, empty lists
and the largest count -/
theorem read_full_escaped :
    let r : Report :=
      ⟨[⟨⟨['"', 'A', '\\'], [], ['\n', Char.ofNat 1]⟩, ⟨['a', '/', '.', '/', 'b']⟩, []⟩],
        [⟨['p'], ⟨['f']⟩, .registration, ['\t', 'é']⟩], [], 18446744073709551615⟩
    (Json.read? (r.render (.full .indented))).bind ofJson? = some r :=
  read_full _ (by decide) .indented

end Report

end ClassAtlas
