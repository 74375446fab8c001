/-
Chunks cut a file at its declarations.

The ranges of the chunks start at the first line that declares a class and reach to the end of the file, one after the
other and without a gap, and each declares a class on its first line and on no other (`CutsAtDeclarations`). One more
line in front keeps this, whether it declares a class or not (`declare`, `skip`), so it holds of every file. No line from
the first declaration on is lost or doubled: put together again, the chunks are the file without the lines before it
(`flatten_chunks`).
-/
import Mathlib.Data.List.Chain
import ClassAtlas.Proofs.Chunk

namespace ClassAtlas.Source

/-- half-open ranges that cut the lines of a file at its declarations -/
structure CutsAtDeclarations (lines : List Text) (spans : List (Nat × Nat)) : Prop where
  /-- no range is empty -/
  nonempty : ∀ s ∈ spans, s.1 < s.2
  /-- each range ends where the next one starts -/
  consecutive : spans.IsChain fun s next => s.2 = next.1
  /-- the first range starts at the first declaration; there is no range without one -/
  first : spans.head?.map Prod.fst = lines.findIdx? declares
  /-- the last range ends with the lines -/
  last : ∀ s ∈ spans.getLast?, s.2 = lines.length
  /-- of the lines of a range the first one declares a class, and no other -/
  once : ∀ s ∈ spans, ∀ i, s.1 ≤ i → i < s.2 → ∃ line, lines[i]? = some line ∧ (declares line = true ↔ i = s.1)

/-- the lines before the first declaration are as many as its number says -/
theorem length_takeWhile_of_findIdx? {lines : List Text} {i : Nat} (h : lines.findIdx? declares = some i) :
    (lines.takeWhile (!declares ·)).length = i := by
  induction lines generalizing i with
  | nil => simp at h
  | cons line lines ih =>
    rw [List.findIdx?_cons] at h
    by_cases hd : declares line = true
    · simpa [hd] using h
    · simp only [hd, Bool.false_eq_true, ite_false, Option.map_eq_some_iff] at h
      obtain ⟨j, hj, rfl⟩ := h
      simp [hd, ih hj]

namespace CutsAtDeclarations

variable {lines : List Text} {spans : List (Nat × Nat)}

/-- without ranges no line declares a class -/
theorem takeWhile_of_nil (h : CutsAtDeclarations lines []) : lines.takeWhile (!declares ·) = lines := by
  have hnone : ∀ line ∈ lines, declares line = false := List.findIdx?_eq_none_iff.1 h.first.symm
  exact List.takeWhile_eq_self_iff.2 fun line hline => by simp [hnone line hline]

theorem empty : CutsAtDeclarations [] [] where
  nonempty := List.forall_mem_nil _
  consecutive := .nil
  first := rfl
  last := by simp
  once := List.forall_mem_nil _

/-! ### One more line in front -/

theorem nonempty_later (h : CutsAtDeclarations lines spans) : ∀ s ∈ spans.map later, s.1 < s.2 := by
  intro _ hlater
  obtain ⟨s, hs, rfl⟩ := List.mem_map.1 hlater
  exact Nat.succ_lt_succ (h.nonempty s hs)

theorem consecutive_later (h : CutsAtDeclarations lines spans) :
    (spans.map later).IsChain fun s next => s.2 = next.1 := by
  rw [List.isChain_map]
  exact h.consecutive.imp fun s next hnext => congrArg (· + 1) hnext

theorem once_later (h : CutsAtDeclarations lines spans) (line : Text) :
    ∀ s ∈ spans.map later, ∀ i, s.1 ≤ i → i < s.2 →
      ∃ found, (line :: lines)[i]? = some found ∧ (declares found = true ↔ i = s.1) := by
  intro _ hlater i hlo hhi
  obtain ⟨s, hs, rfl⟩ := List.mem_map.1 hlater
  obtain ⟨j, rfl⟩ := Nat.exists_eq_succ_of_ne_zero (Nat.ne_of_gt (Nat.lt_of_lt_of_le (Nat.succ_pos s.1) hlo))
  obtain ⟨found, hfound, hiff⟩ := h.once s hs j (Nat.le_of_succ_le_succ hlo) (Nat.lt_of_succ_lt_succ hhi)
  exact ⟨found, hfound, hiff.trans Nat.succ_inj.symm⟩

theorem last_later (h : CutsAtDeclarations lines spans) (line : Text) :
    ∀ s ∈ (spans.map later).getLast?, s.2 = (line :: lines).length := by
  intro _ hlater
  rw [List.getLast?_map] at hlater
  obtain ⟨s, hs, rfl⟩ := Option.map_eq_some_iff.1 hlater
  exact congrArg (· + 1) (h.last s hs)

/-- a line that declares no class moves the ranges -/
theorem skip (h : CutsAtDeclarations lines spans) {line : Text} (hline : declares line = false) :
    CutsAtDeclarations (line :: lines) (spans.map later) where
  nonempty := h.nonempty_later
  consecutive := h.consecutive_later
  first := by
    rw [List.findIdx?_cons, hline, ← h.first]
    cases spans <;> rfl
  last := h.last_later line
  once := h.once_later line

/-- a line that declares a class opens a range, up to the first one of the others -/
theorem declare (h : CutsAtDeclarations lines spans) {line : Text} (hline : declares line = true) :
    CutsAtDeclarations (line :: lines) ((0, (lines.takeWhile (!declares ·)).length + 1) :: spans.map later) where
  nonempty := List.forall_mem_cons.2 ⟨Nat.succ_pos _, h.nonempty_later⟩
  consecutive := by
    refine List.isChain_cons.2 ⟨fun _ hlater => ?_, h.consecutive_later⟩
    rw [List.head?_map] at hlater
    obtain ⟨next, hnext, rfl⟩ := Option.map_eq_some_iff.1 hlater
    have hfirst : lines.findIdx? declares = some next.1 := by rw [← h.first, hnext, Option.map_some]
    exact congrArg (· + 1) (length_takeWhile_of_findIdx? hfirst)
  first := by
    rw [List.findIdx?_cons, hline]
    rfl
  last := by
    cases spans with
    | nil => simp [h.takeWhile_of_nil]
    | cons s spans =>
      rw [List.map_cons, List.getLast?_cons_cons]
      exact h.last_later line
  once := by
    refine List.forall_mem_cons.2 ⟨fun i _ hi => ?_, h.once_later line⟩
    cases i with
    | zero => exact ⟨line, rfl, by simp [hline]⟩
    | succ j =>
      -- the lines up to the next declaration declare nothing
      have hj : j < (lines.takeWhile (!declares ·)).length := Nat.lt_of_succ_lt_succ hi
      have hnone := List.mem_takeWhile_imp (List.getElem_mem hj)
      exact ⟨_, List.prefix_iff_getElem?.1 (List.takeWhile_prefix _) j hj, by simpa using hnone⟩

end CutsAtDeclarations

/-- the ranges of the chunks cut the lines at their declarations -/
theorem cutsAtDeclarations_chunkSpans (lines : List Text) : CutsAtDeclarations lines (chunkSpans lines) := by
  induction lines with
  | nil => exact .empty
  | cons line lines ih =>
    rw [chunkSpans_cons]
    cases hline : declares line with
    | false => exact ih.skip hline
    | true => exact ih.declare hline

theorem chunks_eq_nil_iff (lines : List Text) : chunks lines = [] ↔ ∀ line ∈ lines, declares line = false := by
  rw [← List.findIdx?_eq_none_iff, ← (cutsAtDeclarations_chunkSpans lines).first, Option.map_eq_none_iff,
    List.head?_eq_none_iff, chunks, List.map_eq_nil_iff]

theorem flatten_chunks (lines : List Text) : (chunks lines).flatten = lines.dropWhile (!declares ·) := by
  induction lines with
  | nil => rfl
  | cons line lines ih =>
    rw [chunks_cons, List.flatten_append, ih]
    cases hline : declares line with
    | false => simp [hline]
    | true => simp [hline, List.takeWhile_append_dropWhile]

/-- **Chunks cut a file at its declarations.** Their ranges are not empty and follow each other without a gap, from the
first line that declares a class to the last line of the file; each holds one such line, its first. So there are chunks
unless no line declares a class, and together they are the file from the first declaration on. -/
theorem chunks_cut (lines : List Text) :
    CutsAtDeclarations lines (chunkSpans lines) ∧
    (chunks lines = [] ↔ ∀ line ∈ lines, declares line = false) ∧
    (chunks lines).flatten = lines.dropWhile (!declares ·) :=
  ⟨cutsAtDeclarations_chunkSpans lines, chunks_eq_nil_iff lines, flatten_chunks lines⟩

end ClassAtlas.Source
