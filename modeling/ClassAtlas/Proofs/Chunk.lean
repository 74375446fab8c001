/-
Chunks by recursion on the lines.

Chunks are defined by line numbers. Read from the front they are simpler: a line that declares a class opens a range, or
a chunk, with the lines up to the next such line, and any other line opens none (`chunkSpans_cons`, `chunks_cons`). It
follows that the outlines of the chunks carry the declared names, each once and in order (`map_name_outlines`), so that
both ways of reading a file find the same classes.
-/
import ClassAtlas.Proofs.Word
import ClassAtlas.FileOutline

namespace ClassAtlas.Source

open Pattern (IsRun Stops isNameChar)

/-- does the line declare a class? -/
def declares (line : Text) : Bool := (classMatch? line).isSome

theorem chunkStarts_cons (line : Text) (lines : List Text) :
    chunkStarts (line :: lines) = (if declares line then [0] else []) ++ (chunkStarts lines).map (· + 1) := by
  have hshift : lines.zipIdx 1 = lines.zipIdx.map fun l => (l.1, l.2 + 1) := by
    simpa using List.zipIdx_succ (l := lines) (i := 0)
  unfold chunkStarts declares
  rw [List.zipIdx_cons, hshift]
  by_cases h : (classMatch? line).isSome = true
  · simp [h, List.filter_map, Function.comp_def]
  · simp [h, List.filter_map, Function.comp_def]

/-- the first line that declares a class comes after those that do not -/
theorem head_chunkStarts (lines : List Text) :
    (chunkStarts lines ++ [lines.length]).head? = some (lines.takeWhile (!declares ·)).length := by
  induction lines with
  | nil => rfl
  | cons line lines ih =>
    rw [chunkStarts_cons]
    by_cases h : declares line = true
    · simp [h]
    · have hm : (List.map (· + 1) (chunkStarts lines) ++ [lines.length + 1]) =
          (chunkStarts lines ++ [lines.length]).map (· + 1) := by simp
      simp only [h, Bool.false_eq_true, ite_false, List.nil_append, List.length_cons, hm, List.head?_map, ih]
      simp [h]

/-- the number of a line is one more if another line comes first -/
def later (range : Nat × Nat) : Nat × Nat := (range.1 + 1, range.2 + 1)

/-- **Ranges by recursion.** A line that declares a class opens a range up to the next such line. -/
theorem chunkSpans_cons (line : Text) (lines : List Text) :
    chunkSpans (line :: lines) =
      (if declares line then [(0, (lines.takeWhile (!declares ·)).length + 1)] else []) ++
        (chunkSpans lines).map later := by
  have hhead := head_chunkStarts lines
  have hlater : (chunkSpans lines).map later =
      ((chunkStarts lines).map (· + 1)).zip (((chunkStarts lines).map (· + 1)).tail ++ [lines.length + 1]) := by
    have hends : ((chunkStarts lines).map (· + 1)).tail ++ [lines.length + 1] =
        ((chunkStarts lines).tail ++ [lines.length]).map (· + 1) := by simp [List.map_tail]
    rw [hends, List.zip_map]
    rfl
  rw [hlater, chunkSpans, chunkStarts_cons]
  by_cases h : declares line = true
  · -- the first range ends where the next one starts, or at the end of the lines
    cases hs : chunkStarts lines with
    | nil =>
      rw [hs] at hhead
      have hlen : lines.length = (lines.takeWhile (!declares ·)).length := by simpa using hhead
      simp [h, ← hlen]
    | cons first more =>
      rw [hs] at hhead
      have hlen : first = (lines.takeWhile (!declares ·)).length := by simpa using hhead
      simp [h, ← hlen]
  · simp [h]

theorem slice_later (line : Text) (lines : List Text) (range : Nat × Nat) :
    slice (line :: lines) (later range) = slice lines range := by
  simp [slice, later]

/-- from the front to the next line that declares a class -/
theorem slice_first (line : Text) (lines : List Text) :
    slice (line :: lines) (0, (lines.takeWhile (!declares ·)).length + 1) = line :: lines.takeWhile (!declares ·) := by
  have htake := List.prefix_iff_eq_take.1 (List.takeWhile_prefix (fun l => !declares l) (l := lines))
  simp only [slice, List.drop_zero, Nat.sub_zero, List.take_succ_cons]
  rw [← htake]

/-- **Chunks by recursion.** A line that declares a class opens a chunk up to the next such line. -/
theorem chunks_cons (line : Text) (lines : List Text) :
    chunks (line :: lines) =
      (if declares line then [line :: lines.takeWhile (!declares ·)] else []) ++ chunks lines := by
  have hrest : ((chunkSpans lines).map later).map (slice (line :: lines)) = chunks lines := by
    rw [List.map_map]
    exact List.map_congr_left fun range _ => slice_later line lines range
  rw [chunks, chunkSpans_cons, List.map_append, hrest, apply_ite (List.map _), List.map_singleton, slice_first,
    List.map_nil]

/-- lines before the first class belong to no chunk -/
theorem chunks_append {before : List Text} (h : ∀ line ∈ before, declares line = false) (lines : List Text) :
    chunks (before ++ lines) = chunks lines := by
  induction before with
  | nil => rfl
  | cons line before ih =>
    have hline := h line List.mem_cons_self
    rw [List.cons_append, chunks_cons, ih fun l hl => h l (List.mem_cons_of_mem line hl)]
    simp [hline]

/-- a class with the lines after it, before the next class or the end -/
theorem chunks_class {declaration : Text} (hd : declares declaration = true) {body : List Text}
    (hb : ∀ line ∈ body, declares line = false) {lines : List Text} (hl : ∀ line ∈ lines.head?, declares line = true) :
    chunks (declaration :: (body ++ lines)) = (declaration :: body) :: chunks lines := by
  have htake : (body ++ lines).takeWhile (!declares ·) = body := by
    rw [List.takeWhile_append_of_pos fun line hline => by simp [hb line hline]]
    cases lines with
    | nil => simp
    | cons next lines => simp [hl next rfl]
  rw [chunks_cons, htake, chunks_append hb]
  simp [hd]

/-! ## The declared names -/

theorem name_of_ofLines? {line : Text} {body : List Text} {o : Outline} (h : Outline.ofLines? (line :: body) = some o) :
    classNameOf? line = some o.name := by
  unfold classNameOf?
  cases hm : classMatch? line with
  | none => simp [Outline.ofLines?, hm] at h
  | some found =>
    simp only [Outline.ofLines?, hm, Option.bind_eq_bind, Option.bind_some, Option.pure_def, Option.some.injEq] at h
    rw [← h]
    rfl

theorem isSome_ofLines? (line : Text) (body : List Text) :
    (Outline.ofLines? (line :: body)).isSome = declares line := by
  unfold declares
  cases hm : classMatch? line with
  | none => simp [Outline.ofLines?, hm]
  | some found => simp [Outline.ofLines?, hm]

/-- both ways of reading a file find the same classes in the same order -/
theorem map_name_outlines (lines : List Text) :
    ((chunks lines).filterMap Outline.ofLines?).map Outline.name = lines.filterMap classNameOf? := by
  induction lines with
  | nil => rfl
  | cons line lines ih =>
    rw [chunks_cons]
    have hsome := isSome_ofLines? line (lines.takeWhile (!declares ·))
    by_cases h : declares line = true
    · obtain ⟨o, ho⟩ := Option.isSome_iff_exists.1 (hsome.trans h)
      simp [h, ho, name_of_ofLines? ho, ih]
    · have hnone : classNameOf? line = none := by simpa [classNameOf?, declares] using h
      simp [h, hnone, ih]

/-- a class declaration is the word `class`, blanks and a name at whose end a word ends -/
theorem mem_classPattern {s t r name : Text} (h : ⟨name, t, r⟩ ∈ classPattern s) :
    ∃ gap, s = ("class" : Text) ++ gap ++ name ++ r ∧ gap ≠ [] ∧ (∀ c ∈ gap, Text.isBlank c = true) ∧
      IsRun isNameChar name ∧ name.length ≤ 128 ∧ Stops Text.isWord r := by
  obtain ⟨_, _, s₁, _, hword, h₁, -⟩ := Pattern.mem_bind.1 h
  obtain ⟨rfl, rfl⟩ := Pattern.mem_literal.1 hword
  obtain ⟨_, gap, s₂, _, hgap, h₂, -⟩ := Pattern.mem_bind.1 h₁
  obtain ⟨rfl, hblank, hlen⟩ := Pattern.mem_spanAll hgap
  obtain ⟨_, _, s₃, _, hcapture, h₃, -⟩ := Pattern.mem_bind.1 h₂
  obtain ⟨rfl, _, hname⟩ := Pattern.mem_capture.1 hcapture
  obtain ⟨rfl, hrun, hshort⟩ := Pattern.mem_identifier hname
  obtain ⟨_, _, s₄, _, hend, h₄, -⟩ := Pattern.mem_bind.1 h₃
  obtain ⟨hstops, -, rfl⟩ := Pattern.mem_notBeforeWord.1 hend
  obtain ⟨rfl, -, rfl⟩ := Pattern.mem_pure.1 h₄
  exact ⟨gap, by simp, List.ne_nil_of_length_pos hlen, hblank, hrun, hshort, Pattern.stops_iff.2 hstops⟩

/-- without the word `class` no class is declared -/
theorem declares_eq_false {line : Text} (h : ("class" : Text) ∉ Text.words line) : declares line = false := by
  have hnone : classPattern.atWordStarts line = [] := by
    refine Pattern.atWordStarts_eq_nil (by decide) (fun s m hm => ?_) h
    obtain ⟨gap, hs, hne, hblank, -⟩ := mem_classPattern hm
    exact ⟨gap, m.value ++ m.rest, hs.trans (List.append_assoc _ _ _), hne, hblank⟩
  simp [declares, classMatch?, hnone]

end ClassAtlas.Source
