/-
Canonical lines, line by line.

The scan that breaks statements goes over all lines at once. It starts anew at each line feed, so it breaks every line as
if that stood alone (`breakStatements_unlines`): a literal that is not closed, an escape or an `@` at the end of a line
never reaches the next one. Hence the canonical lines of a source text are those of its lines, one after the other
(`canonicalLines_eq`).
-/
import ClassAtlas.Proofs.Comment
import ClassAtlas.Proofs.Lines
import ClassAtlas.Source.Canonical

namespace ClassAtlas.Source

open Nesting (Delimiters State)

/-! ## The statements of one line -/

/-- the parts of a line; each but the last ends with a terminator outside literals -/
def statementsFrom : State → Text → List Text
  | _, [] => [[]]
  | s, c :: rest =>
    let parts := statementsFrom (s.step Delimiters.literals c) rest
    if s.atTop && isTerminator c then [c] :: parts else Text.consFirst c parts

def statements (line : Text) : List Text := statementsFrom {} line

/-- the canonical lines of one line -/
def canonicalLine (line : Text) : List Text :=
  if isCommentLine line then []
  else ((statements (removeComments line)).map Text.trim).filter fun part => !part.isEmpty

theorem statementsFrom_ne_nil (s : State) (line : Text) : statementsFrom s line ≠ [] := by
  cases line with
  | nil => simp [statementsFrom]
  | cons c rest =>
    unfold statementsFrom
    split
    · simp
    · cases statementsFrom (s.step Delimiters.literals c) rest <;> simp [Text.consFirst]

/-- nothing is lost -/
theorem flatten_statementsFrom (s : State) (line : Text) : (statementsFrom s line).flatten = line := by
  induction line generalizing s with
  | nil => rfl
  | cons c rest ih =>
    unfold statementsFrom
    split
    · rw [List.flatten_cons, ih]
      rfl
    · rw [Text.flatten_consFirst, ih]

theorem feed_not_mem_statements {line : Text} (h : '\n' ∉ line) : ∀ part ∈ statements line, '\n' ∉ part := by
  intro part hpart hn
  have hflatten := List.mem_flatten_of_mem hpart hn
  rw [statements, flatten_statementsFrom] at hflatten
  exact h hflatten

/-! ## The scan over all lines -/

theorem unlines_consFirst {parts : List Text} (h : parts ≠ []) (c : Char) :
    Text.unlines (Text.consFirst c parts) = c :: Text.unlines parts := by
  obtain ⟨part, parts, rfl⟩ := List.exists_cons_of_ne_nil h
  rfl

namespace Breaker

/-- one line and its line feed: the scan writes the statements of the line and stands at a start again -/
theorem run_line {line : Text} (h : '\n' ∉ line) (s : State) (written : Text) :
    run ⟨s, written⟩ (line ++ ['\n']) = { reversed := (Text.unlines (statementsFrom s line)).reverse ++ written } := by
  induction line generalizing s written with
  | nil => rfl
  | cons c rest ih =>
    have hc : c ≠ '\n' := fun he => h (by simp [he])
    have hrest : '\n' ∉ rest := fun hm => h (List.mem_cons_of_mem c hm)
    have hrun : run ⟨s, written⟩ (c :: rest ++ ['\n']) = run (step ⟨s, written⟩ c) (rest ++ ['\n']) := rfl
    rw [hrun, step, if_neg hc, ih hrest, statementsFrom]
    split
    · simp [Text.unlines_cons]
    · rw [unlines_consFirst (statementsFrom_ne_nil _ _)]
      simp

/-- all lines -/
theorem run_unlines {ls : List Text} (h : ∀ line ∈ ls, '\n' ∉ line) (written : Text) :
    run { reversed := written } (Text.unlines ls) =
      { reversed := (Text.unlines (ls.flatMap statements)).reverse ++ written } := by
  induction ls generalizing written with
  | nil => rfl
  | cons line ls ih =>
    have hrest : ∀ l ∈ ls, '\n' ∉ l := fun l hl => h l (List.mem_cons_of_mem line hl)
    have htext : Text.unlines (line :: ls) = line ++ ['\n'] ++ Text.unlines ls := by simp [Text.unlines_cons]
    have hrun : run { reversed := written } (line ++ ['\n'] ++ Text.unlines ls) =
        run (run { reversed := written } (line ++ ['\n'])) (Text.unlines ls) := List.foldl_append
    rw [htext, hrun, run_line (h line List.mem_cons_self), ih hrest, List.flatMap_cons, Text.unlines_append]
    simp [statements]

end Breaker

/-- **Each line is broken on its own.** -/
theorem breakStatements_unlines {ls : List Text} (h : ∀ line ∈ ls, '\n' ∉ line) :
    breakStatements (Text.unlines ls) = Text.unlines (ls.flatMap statements) := by
  rw [breakStatements, Breaker.run_unlines h]
  simp

/-! ## Canonical lines -/

theorem feed_not_mem_removeComments {line : Text} (h : '\n' ∉ line) : '\n' ∉ removeComments line := by
  intro hn
  have hblock := (Nesting.before_prefix _ _ _).subset hn
  exact h ((spansRemoved_removeBlockComments line).subset hblock)

theorem feed_not_mem_codeLines (source : Text) : ∀ line ∈ codeLines source, '\n' ∉ line := by
  intro line hline
  obtain ⟨l, hl, rfl⟩ := List.mem_map.1 hline
  refine feed_not_mem_removeComments fun hn => ?_
  exact (Text.mem_of_mem_lines (List.mem_filter.1 hl).1 hn).2 rfl

theorem trim_dropReturn (line : Text) : Text.trim (Text.dropReturn line) = Text.trim line := by
  rcases Text.dropReturn_cases line with h | h
  · rw [h]
  · have hblank : Text.isBlank '\r' = true := by decide
    conv_rhs => rw [h, Text.trim_concat _ hblank]

theorem flatMap_codeLines (ls : List Text) :
    ((ls.filter fun line => !isCommentLine line).map removeComments).flatMap
        (fun line => ((statements line).map Text.trim).filter fun part => !part.isEmpty) =
      ls.flatMap canonicalLine := by
  induction ls with
  | nil => rfl
  | cons line ls ih =>
    by_cases hc : isCommentLine line = true
    · simpa [hc, canonicalLine] using ih
    · simpa [hc, canonicalLine] using ih

/-- **The canonical lines are those of each line.** -/
theorem canonicalLines_eq (source : Text) : canonicalLines source = (Text.lines source).flatMap canonicalLine := by
  have hfeed := feed_not_mem_codeLines source
  have hparts : ∀ part ∈ (codeLines source).flatMap statements, '\n' ∉ part := by
    intro part hpart
    obtain ⟨line, hline, hpart⟩ := List.mem_flatMap.1 hpart
    exact feed_not_mem_statements (hfeed line hline) part hpart
  have htrim : ∀ parts : List Text, (parts.map Text.dropReturn).map Text.trim = parts.map Text.trim := by
    intro parts
    rw [List.map_map]
    exact List.map_congr_left fun part _ => trim_dropReturn part
  rw [← flatMap_codeLines, canonicalLines, breakStatements_unlines hfeed, Text.lines_unlines hparts, htrim,
    List.map_flatMap, List.filter_flatMap]
  rfl

end ClassAtlas.Source
