/-
Source text by its lines: how they end does not matter, and neither do lines without code.

A line gives the same canonical lines wherever it stands and however it ends. It may end with a line feed, with a
carriage return and a line feed, or with the text; a carriage return of its own at its end is a blank like any other.
Blank lines and lines with a comment alone give none. So the canonical text is put together from the lines on their own,
and all that is read off it depends on the lines with code alone (`canonical_text`).
-/
import ClassAtlas.FileOutline
import ClassAtlas.Proofs.Canonical
import ClassAtlas.Proofs.Grouping

namespace ClassAtlas.Source

open Nesting (Delimiters State)

/-! ## A blank at the end of a line -/

/-- the blank goes to the end of the last part -/
theorem exists_statementsFrom_concat {c : Char} (hc : Text.isBlank c = true) (s : State) (line : Text) :
    ∃ parts last, statementsFrom s line = parts ++ [last] ∧ statementsFrom s (line ++ [c]) = parts ++ [last ++ [c]] := by
  induction line generalizing s with
  | nil => exact ⟨[], [], rfl, by simp [statementsFrom, not_isTerminator_of_isBlank hc, Text.consFirst]⟩
  | cons d line ih =>
    obtain ⟨parts, last, hline, hconcat⟩ := ih (s.step Delimiters.literals d)
    rw [List.cons_append]
    unfold statementsFrom
    rw [hline, hconcat]
    split
    · exact ⟨[d] :: parts, last, rfl, rfl⟩
    · cases parts with
      | nil => exact ⟨[], d :: last, rfl, rfl⟩
      | cons part parts => exact ⟨(d :: part) :: parts, last, rfl, rfl⟩

theorem trim_statements_concat {c : Char} (hc : Text.isBlank c = true) (line : Text) :
    (statements (line ++ [c])).map Text.trim = (statements line).map Text.trim := by
  obtain ⟨parts, last, hline, hconcat⟩ := exists_statementsFrom_concat hc {} line
  rw [statements, statements, hline, hconcat, List.map_append, List.map_append, List.map_singleton, List.map_singleton,
    Text.trim_concat last hc]

theorem trim_statements_removeComments {c : Char} (hc : Text.isBlank c = true) (line : Text) :
    (statements (removeComments (line ++ [c]))).map Text.trim = (statements (removeComments line)).map Text.trim := by
  unfold removeComments
  rw [removeBlockComments_concat line hc]
  rcases removeLineComment_concat (removeBlockComments line) hc with h | h
  · rw [h]
  · rw [h, trim_statements_concat hc]

theorem canonicalLine_concat {c : Char} (hc : Text.isBlank c = true) (line : Text) :
    canonicalLine (line ++ [c]) = canonicalLine line := by
  unfold canonicalLine
  rw [isCommentLine_concat line hc, trim_statements_removeComments hc]

theorem canonicalLine_dropReturn (line : Text) : canonicalLine (Text.dropReturn line) = canonicalLine line := by
  rcases Text.dropReturn_cases line with h | h
  · rw [h]
  · have hconcat := canonicalLine_concat (c := '\r') (by decide) (Text.dropReturn line)
    rw [← h] at hconcat
    exact hconcat.symm

/-! ## Lines and their ends -/

inductive LineEnd where
  | feed
  | returnFeed
deriving DecidableEq, Repr

def LineEnd.text : LineEnd → Text
  | feed => ['\n']
  | returnFeed => ['\r', '\n']

/-- a text without a line feed -/
abbrev OneLine := { s : Text // '\n' ∉ s }

/-- source text by its lines; the last one may lack its end -/
structure SourceLines where
  ended : List (OneLine × LineEnd)
  last : Option OneLine

namespace SourceLines

def lines (f : SourceLines) : List Text := (f.ended.map Prod.fst ++ f.last.toList).map Subtype.val

def text (f : SourceLines) : Text :=
  f.ended.flatMap (fun l => l.1.1 ++ l.2.text) ++ f.last.toList.flatMap Subtype.val

end SourceLines

theorem canonicalLines_ended (line : OneLine) (e : LineEnd) (rest : Text) :
    canonicalLines (line.1 ++ e.text ++ rest) = canonicalLine line.1 ++ canonicalLines rest := by
  rw [canonicalLines_eq, canonicalLines_eq]
  cases e with
  | feed =>
    have htext : line.1 ++ LineEnd.feed.text ++ rest = line.1 ++ '\n' :: rest := by simp [LineEnd.text]
    rw [htext, Text.lines_feed line.2, List.flatMap_cons, canonicalLine_dropReturn]
  | returnFeed =>
    have htext : line.1 ++ LineEnd.returnFeed.text ++ rest = (line.1 ++ ['\r']) ++ '\n' :: rest := by
      simp [LineEnd.text]
    have hfeed : '\n' ∉ line.1 ++ ['\r'] := by simpa using line.2
    rw [htext, Text.lines_feed hfeed, List.flatMap_cons, Text.dropReturn_concat_return]

theorem canonicalLines_oneLine (line : OneLine) : canonicalLines line.1 = canonicalLine line.1 := by
  rw [canonicalLines_eq, Text.lines_last line.2]
  split
  · rename_i h
    rw [h, canonicalLine_nil]
    rfl
  · exact List.flatMap_singleton _ _

theorem canonicalLines_text (f : SourceLines) : canonicalLines f.text = f.lines.flatMap canonicalLine := by
  obtain ⟨ended, last⟩ := f
  induction ended with
  | nil =>
    cases last with
    | none => rfl
    | some line => simpa [SourceLines.text, SourceLines.lines] using canonicalLines_oneLine line
  | cons l ended ih =>
    have htext : SourceLines.text ⟨l :: ended, last⟩ = l.1.1 ++ l.2.text ++ SourceLines.text ⟨ended, last⟩ := by
      simp [SourceLines.text]
    have hlines : SourceLines.lines ⟨l :: ended, last⟩ = l.1.1 :: SourceLines.lines ⟨ended, last⟩ := rfl
    rw [htext, hlines, canonicalLines_ended, ih, List.flatMap_cons]

/-! ## Lines without code -/

theorem canonicalLine_of_blanks {line : Text} (h : ∀ c ∈ line, Text.isBlank c = true) : canonicalLine line = [] := by
  induction line using List.reverseRecOn with
  | nil => exact canonicalLine_nil
  | append_singleton line c ih =>
    rw [canonicalLine_concat (h c (by simp))]
    exact ih fun d hd => h d (List.mem_append_left [c] hd)

/-- a line that holds more than blanks or a line comment -/
def holdsCode (line : Text) : Bool := !(isCommentLine line || line.all Text.isBlank)

theorem canonicalLine_eq_nil {line : Text} (h : holdsCode line = false) : canonicalLine line = [] := by
  have hcase : (isCommentLine line || line.all Text.isBlank) = true := by
    simpa only [holdsCode, Bool.not_eq_false'] using h
  rcases Bool.or_eq_true_iff.1 hcase with hcomment | hblank
  · rw [canonicalLine, if_pos hcomment]
  · exact canonicalLine_of_blanks (List.all_eq_true.1 hblank)

theorem canonicalLines_congr {f g : SourceLines} (h : f.lines.filter holdsCode = g.lines.filter holdsCode) :
    canonicalLines f.text = canonicalLines g.text := by
  have hcode : ∀ f : SourceLines, canonicalLines f.text = (f.lines.filter holdsCode).flatMap canonicalLine := by
    intro f
    rw [canonicalLines_text, flatMap_filter_of_nil fun line hline => canonicalLine_eq_nil hline]
  rw [hcode f, hcode g, h]

/-- the canonical text of each line is what it adds to the whole -/
theorem canonical_lines (f : SourceLines) : canonical f.text = f.lines.flatMap canonical := by
  have hline : ∀ line ∈ f.lines, canonical line = Text.unlines (canonicalLine line) := by
    intro line hline
    obtain ⟨l, -, rfl⟩ := List.mem_map.1 hline
    rw [canonical, canonicalLines_oneLine]
  rw [canonical, canonicalLines_text, List.flatMap_congr hline]
  exact List.flatMap_assoc

/-- **Source text is read line by line.** Its canonical text is that of its lines on their own, one after the other.
Texts with the same lines of code have the same canonical text, the same outline and the same declared names, whatever
ends their lines and whatever blank lines and comment lines stand between them. -/
theorem canonical_text (f : SourceLines) :
    canonical f.text = f.lines.flatMap canonical ∧
    ∀ g : SourceLines, f.lines.filter holdsCode = g.lines.filter holdsCode →
      canonical f.text = canonical g.text ∧ FileOutline.ofText f.text = FileOutline.ofText g.text ∧
        DeclaredNames.ofText f.text = DeclaredNames.ofText g.text := by
  refine ⟨canonical_lines f, fun g h => ?_⟩
  have hlines := canonicalLines_congr h
  simp only [canonical, FileOutline.ofText, DeclaredNames.ofText, hlines, and_self]

/-- a literal that is left open, with and without carriage returns, a comment line and a blank line around it -/
theorem canonical_text_open_literal :
    let f : SourceLines :=
      ⟨[(⟨['s', '=', '"', ';'], by decide⟩, .returnFeed), (⟨['/', '/', '"'], by decide⟩, .feed),
        (⟨[' ', '\r'], by decide⟩, .feed)], some ⟨['t', ';', 'u'], by decide⟩⟩
    let g : SourceLines :=
      ⟨[(⟨['s', '=', '"', ';'], by decide⟩, .feed), (⟨['t', ';', 'u'], by decide⟩, .returnFeed)], none⟩
    canonical g.text = ['s', '=', '"', ';', '\n', 't', ';', '\n', 'u', '\n'] ∧ canonical f.text = canonical g.text ∧
      FileOutline.ofText f.text = FileOutline.ofText g.text ∧ DeclaredNames.ofText f.text = DeclaredNames.ofText g.text := by
  intro f g
  exact ⟨by decide +kernel, (canonical_text f).2 g (by decide)⟩

end ClassAtlas.Source
