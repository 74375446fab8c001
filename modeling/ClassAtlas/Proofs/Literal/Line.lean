/-
Lines of code and string literals, and what normalization leaves of them.

A line is put together from code without quotes, slashes and `@` and from closed string literals (`LiteralLine`). The
search for a line comment and the scan that breaks statements pass over literals, whatever stands in them, so neither
takes a character away. Block comments are removed without a look at literals. So every character of the line is left,
apart from blanks, exactly if it holds no pair of block comment marks (`withoutBlanks_literalLine_iff`), and such a pair
may stand in one literal, or in two of them with code between.
-/
import ClassAtlas.Proofs.LineCode
import ClassAtlas.Proofs.Literal.Scan

namespace ClassAtlas.Source

open Nesting (AtStart Crosses Delimiters Plain State)

/-! ## Lines of code and literals -/

/-- code that starts neither a literal nor a comment, makes no literal verbatim and ends no line -/
def isBare (c : Char) : Bool := c != '"' && c != '\'' && c != '/' && c != '@' && c != '\n'

abbrev Bare := { s : Text // ∀ c ∈ s, isBare c = true }

/-- what stands between the marks of a string literal on one line -/
abbrev StringBody := { s : Text // Nesting.isBody .double s = true ∧ '\n' ∉ s }

def StringBody.literal (body : StringBody) : Nesting.Literal := ⟨.double, body.1, body.2.1⟩

/-- a line of code and closed string literals -/
structure LiteralLine where
  parts : List (Bare × StringBody)
  last : Bare

def LiteralLine.text (l : LiteralLine) : Text :=
  l.parts.flatMap (fun part => part.1.1 ++ part.2.literal.text) ++ l.last.1

theorem isBare_iff {c : Char} : isBare c = true ↔ c ≠ '"' ∧ c ≠ '\'' ∧ c ≠ '/' ∧ c ≠ '@' ∧ c ≠ '\n' := by
  simp [isBare, and_assoc]

theorem plain_of_isBare {c : Char} (h : isBare c = true) : Plain Delimiters.literals c := by
  obtain ⟨hdouble, hsingle, -⟩ := isBare_iff.1 h
  refine Nesting.plain_of_ne (fun q _ => ?_) fun b hb => absurd hb (by cases b <;> decide)
  cases q with
  | double => exact hdouble
  | single => exact hsingle

namespace LiteralLine

theorem feed_not_mem_text (l : LiteralLine) : '\n' ∉ l.text := by
  have hbare : ∀ code : Bare, '\n' ∉ code.1 := fun code hm => absurd (code.2 _ hm) (by decide)
  intro hm
  rcases List.mem_append.1 hm with hm | hm
  · obtain ⟨part, -, hm⟩ := List.mem_flatMap.1 hm
    rcases List.mem_append.1 hm with hm | hm
    · exact hbare part.1 hm
    · simp only [Nesting.Literal.text, StringBody.literal, Nesting.Quote.mark, List.mem_cons, List.mem_append,
        Char.reduceEq, List.not_mem_nil, or_false, false_or] at hm
      exact part.2.2.2 hm
  · exact hbare l.last hm

end LiteralLine

/-! ## Line comments -/

section Crossing

variable {s : State}

theorem crosses_bare (hs : AtStart s) (code : Bare) :
    Crosses Delimiters.literals (· ≠ '/') s code.1 ∧ AtStart (s.run Delimiters.literals code.1) := by
  have hslash : Nesting.Shielded Delimiters.literals (· ≠ '/') code.1 :=
    .of_forall fun c hc => ⟨plain_of_isBare (code.2 c hc), (isBare_iff.1 (code.2 c hc)).2.2.1⟩
  refine ⟨hslash.passable s hs.code (by rw [hs.levels]; rfl), hs.run_plain fun c hc => ?_⟩
  exact ⟨plain_of_isBare (code.2 c hc), (isBare_iff.1 (code.2 c hc)).2.2.2.1⟩

theorem crosses_literal (hs : AtStart s) (body : StringBody) :
    Crosses Delimiters.literals (· ≠ '/') s body.literal.text ∧
      AtStart (s.run Delimiters.literals body.literal.text) := by
  have hdouble : .quote .double ∈ Delimiters.literals := by decide
  have hmark : Nesting.Quote.double.mark ≠ '/' ∧ some Nesting.Quote.double.mark ≠ some '@' := by decide
  have hcross : Crosses Delimiters.literals (· ≠ '/') s body.literal.text :=
    (body.literal.crossesWithin hdouble hmark.1 hs.code (by rw [hs.levels]; decide) fun _ => hs.previous).crosses
  refine ⟨hcross, hcross.levels.trans hs.levels, hcross.code, ?_⟩
  rw [body.literal.previous_run]
  exact hmark.2

/-- no slash of the line stands outside literals -/
theorem LiteralLine.crosses (l : LiteralLine) : Crosses Delimiters.literals (· ≠ '/') {} l.text := by
  obtain ⟨parts, last⟩ := l
  suffices h : ∀ s, AtStart s → Crosses Delimiters.literals (· ≠ '/') s (LiteralLine.text ⟨parts, last⟩) from
    h {} Nesting.atStart_init
  induction parts with
  | nil => exact fun s hs => (crosses_bare hs last).1
  | cons part parts ih =>
    intro s hs
    have htext : LiteralLine.text ⟨part :: parts, last⟩ =
        part.1.1 ++ (part.2.literal.text ++ LiteralLine.text ⟨parts, last⟩) := by
      simp [LiteralLine.text]
    obtain ⟨hcode, hbehind⟩ := crosses_bare hs part.1
    obtain ⟨hliteral, hnext⟩ := crosses_literal hbehind part.2
    rw [htext]
    exact hcode.append (hliteral.append (ih _ hnext))

theorem LiteralLine.removeLineComment_text (l : LiteralLine) : removeLineComment l.text = l.text := by
  have hcut := l.crosses.cutFrom_append (lineComment.isPrefixOf ·)
    (fun _ rest hc => isPrefixOf_lineComment_cons hc rest) []
  rw [List.append_nil] at hcut
  exact removeLineComment_eq_self_iff.2 hcut

end Crossing

/-! ## Block comments -/

/-- a block comment takes its slashes along -/
theorem SpansRemoved.count_slash_lt {line rest : Text} (h : SpansRemoved line rest) (hb : ¬ BlockFree line) :
    rest.count '/' < line.count '/' := by
  cases h with
  | none hfree => exact absurd hfree hb
  | span _ _ hrest =>
    have hopening : blockOpening.count '/' = 1 := by decide
    have hafter := hrest.sublist.count_le '/'
    simp only [List.count_append, hopening]
    omega

theorem withoutBlanks_canonical_oneLine (line : OneLine) :
    Text.withoutBlanks (canonical line.1) = (canonicalLine line.1).flatMap Text.withoutBlanks := by
  rw [canonical, withoutBlanks_unlines, canonicalLines_oneLine]

theorem count_slash_withoutBlanks (text : Text) : (Text.withoutBlanks text).count '/' = text.count '/' :=
  List.count_filter (by decide)

/-- no slash comes in, and those of block comments go -/
theorem count_slash_canonical_le (line : OneLine) :
    (canonical line.1).count '/' ≤ (removeBlockComments line.1).count '/' := by
  rw [← count_slash_withoutBlanks, withoutBlanks_canonical_oneLine]
  by_cases hcomment : isCommentLine line.1 = true
  · rw [canonicalLine, if_pos hcomment]
    exact Nat.zero_le _
  · rw [withoutBlanks_canonicalLine (Bool.not_eq_true _ ▸ hcomment), count_slash_withoutBlanks, removeComments]
    exact (Nesting.before_prefix _ _ _).sublist.count_le '/'

/-- **Every character of a line of code and string literals is left, apart from blanks, exactly if no pair of block
comment marks stands on it**, in literals or not. -/
theorem withoutBlanks_literalLine_iff (l : LiteralLine) :
    Text.withoutBlanks (canonical l.text) = Text.withoutBlanks l.text ↔ BlockFree l.text := by
  constructor
  · intro hsame
    by_contra hblock
    have hle := count_slash_canonical_le ⟨l.text, l.feed_not_mem_text⟩
    have hlt := (spansRemoved_removeBlockComments l.text).count_slash_lt hblock
    rw [← count_slash_withoutBlanks, hsame, count_slash_withoutBlanks] at hle
    exact absurd hle (Nat.not_le.2 hlt)
  · intro hfree
    calc Text.withoutBlanks (canonical l.text)
        = (canonicalLine l.text).flatMap Text.withoutBlanks :=
          withoutBlanks_canonical_oneLine ⟨l.text, l.feed_not_mem_text⟩
      _ = (trimmedStatements l.text).flatMap Text.withoutBlanks := by
          rw [canonicalLine_of_blockFree hfree, l.removeLineComment_text]
      _ = Text.withoutBlanks (statements l.text).flatten := withoutBlanks_parts _
      _ = Text.withoutBlanks l.text := by rw [statements, flatten_statementsFrom]

/-- `s = "/*" + x + "*/";` loses the code between its literals -/
theorem literalLine_cut_between_literals :
    ¬ ∀ l : LiteralLine, Text.withoutBlanks (canonical l.text) = Text.withoutBlanks l.text := by
  intro h
  have hline := h ⟨[(⟨['s', ' ', '=', ' '], by decide⟩, ⟨['/', '*'], by decide⟩),
    (⟨[' ', '+', ' ', 'x', ' ', '+', ' '], by decide⟩, ⟨['*', '/'], by decide⟩)], ⟨[';'], by decide⟩⟩
  exact absurd hline (by decide +kernel)

end ClassAtlas.Source
