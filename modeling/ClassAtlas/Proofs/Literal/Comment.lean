/-
Line comments behind code and literals.

Code without quotation marks and closed literals follow each other in turn (`QuotedCode`). A literal may hold slashes,
the other mark and its own mark behind a backslash; the code between literals may hold slashes that stand alone. Every
part leaves the scan in code, and no comment starts in it (`Uncommented.code`, `Uncommented.literal`). So a comment
behind the last part is cut off right there, unless a slash stands before it: that slash and the first one of the
comment are taken for the mark (`removeLineComment_quotedCode`).
-/
import ClassAtlas.Proofs.LineCode
import ClassAtlas.Proofs.Literal.Scan

namespace ClassAtlas.Source

open Nesting (Delimiters Literal OutsideLiterals Plain State)

/-! ## Code and literals -/

/-- code without quotation marks, in which no line comment starts -/
abbrev CodePiece := { s : Text // (∀ c ∈ s, ∀ q : Nesting.Quote, c ≠ q.mark) ∧ ¬ lineComment <:+: s }

/-- code and the literal behind it; no `@` stands before a string literal -/
structure QuotedPart where
  code : CodePiece
  literal : Literal
  regular : literal.quote = .double → code.1.getLast? ≠ some '@'

def QuotedPart.text (p : QuotedPart) : Text := p.code.1 ++ p.literal.text

/-- code and closed literals in turn. The code may be empty, so a line may start with a literal, and two literals may
follow each other. -/
structure QuotedCode where
  parts : List QuotedPart
  last : CodePiece

def QuotedCode.text (code : QuotedCode) : Text := code.parts.flatMap QuotedPart.text ++ code.last.1

/-! ## One part -/

/-- ends outside literals and holds no line comment there -/
structure Uncommented (code : Text) : Prop where
  outside : OutsideLiterals code
  kept : removeLineComment code = code

namespace Uncommented

variable {before : Text}

theorem nil : Uncommented [] := ⟨rfl, rfl⟩

/-- behind a text that no slash ends -/
theorem code (h : Uncommented before) (hlast : before.getLast? ≠ some '/') (piece : CodePiece) :
    Uncommented (before ++ piece.1) := by
  obtain ⟨piece, hquotes, hcomment⟩ := piece
  have hplain : ∀ c ∈ piece, Plain Delimiters.literals c := fun c hc =>
    Nesting.plain_of_ne (fun q _ => hquotes c hc q) fun b hb => absurd hb (Nesting.bracket_not_mem_literals b)
  have hshielded : Nesting.Shielded Delimiters.literals (fun _ => True) piece :=
    .of_forall fun c hc => ⟨hplain c hc, trivial⟩
  constructor
  · rw [OutsideLiterals, State.run_append]
    have hlevels : (State.run Delimiters.literals {} before).levels = {} := Nesting.levels_run_literals {} before
    have hcross := hshielded.passable _ (Nesting.inQuotes_eq_false_iff.1 h.outside) (by rw [hlevels]; rfl)
    exact Nesting.inQuotes_eq_false_iff.2 hcross.code
  · rw [removeLineComment_eq_self_iff, cutFrom_lineComment h.kept (Or.inr hlast),
      Nesting.cutFrom_eq_none_of_absent hcomment]
    rfl

theorem literal (h : Uncommented before) (l : Literal) (hat : l.quote = .double → before.getLast? ≠ some '@') :
    Uncommented (before ++ l.text) := by
  have hquote : .quote l.quote ∈ Delimiters.literals := by cases l.quote <;> decide
  have hmark : l.quote.mark ≠ '/' := by cases l.quote <;> decide
  have hlevels : (State.run Delimiters.literals {} before).levels = {} := Nesting.levels_run_literals {} before
  have hcross : Nesting.Crosses Delimiters.literals (· ≠ '/') (State.run Delimiters.literals {} before) l.text :=
    (l.crossesWithin hquote hmark (Nesting.inQuotes_eq_false_iff.1 h.outside) (by rw [hlevels]; decide)
      fun hdouble => Nesting.previous_run_ne (by simp) (hat hdouble)).crosses
  have hcut := hcross.cutFrom_append (lineComment.isPrefixOf ·)
    (fun _ rest hc => isPrefixOf_lineComment_cons hc rest) []
  rw [List.append_nil] at hcut
  constructor
  · rw [OutsideLiterals, State.run_append]
    exact Nesting.inQuotes_eq_false_iff.2 hcross.code
  · have hhead : l.text.head? ≠ some '/' := by simpa [Literal.text] using hmark
    rw [removeLineComment_eq_self_iff, cutFrom_lineComment h.kept (Or.inl hhead), hcut]
    rfl

/-- a comment right behind it is cut off right there exactly if no slash stands before that -/
theorem removeLineComment_comment_iff {code : Text} (h : Uncommented code) (comment : Text) :
    removeLineComment (code ++ lineComment ++ comment) = code ↔ code.getLast? ≠ some '/' := by
  constructor
  · intro hcut hlast
    -- the last slash and the first one of the comment are a mark, too, and stand before the others
    obtain ⟨rest, rfl⟩ := List.getLast?_eq_some_iff.1 hlast
    have hmode := Nesting.inQuotes_eq_false_iff.1 h.outside
    rw [State.run_append, State.run_cons, State.run_nil] at hmode
    have houtside : OutsideLiterals rest :=
      Nesting.inQuotes_eq_false_iff.2 (Nesting.mode_of_step (fun q => by cases q <;> decide) hmode)
    have hle := length_removeLineComment_le houtside ('/' :: comment)
    have htext : rest ++ lineComment ++ '/' :: comment = rest ++ ['/'] ++ lineComment ++ comment := by
      simp [lineComment]
    rw [htext, hcut, List.length_append, List.length_singleton] at hle
    omega
  · intro hlast
    exact IsCode.removeLineComment_comment ⟨h.outside, h.kept, hlast⟩ comment

end Uncommented

/-! ## All parts -/

theorem mark_ne_slash_at (q : Nesting.Quote) : some q.mark ≠ some '/' ∧ some q.mark ≠ some '@' := by
  cases q <;> decide

/-- behind a literal stands a mark, and before the first one nothing -/
theorem getLast?_parts (parts : List QuotedPart) {c : Char} (hc : ∀ q : Nesting.Quote, some q.mark ≠ some c) :
    (parts.flatMap QuotedPart.text).getLast? ≠ some c := by
  rcases List.eq_nil_or_concat' parts with rfl | ⟨parts, p, rfl⟩
  · simp
  · rw [List.flatMap_append, List.flatMap_singleton, QuotedPart.text, Literal.text, ← List.append_assoc,
      ← List.append_assoc, List.getLast?_concat]
    exact hc p.literal.quote

theorem uncommented_parts (parts : List QuotedPart) : Uncommented (parts.flatMap QuotedPart.text) := by
  induction parts using List.reverseRecOn with
  | nil => exact .nil
  | append_singleton parts p ih =>
    have hcode := ih.code (getLast?_parts parts fun q => (mark_ne_slash_at q).1) p.code
    rw [List.flatMap_append, List.flatMap_singleton, QuotedPart.text, ← List.append_assoc]
    refine hcode.literal p.literal fun hdouble => ?_
    have hregular := p.regular hdouble
    rw [List.getLast?_append]
    -- behind empty code the literal follows the mark of the one before, or nothing
    cases hlast : p.code.1.getLast? with
    | none => exact getLast?_parts parts fun q => (mark_ne_slash_at q).2
    | some c => rwa [hlast] at hregular

/-- **Where a line comment is cut off.** Code and closed literals with no comment outside the literals are kept as they
are. What is left of them with a comment behind them, whatever it says, is all of them exactly if they do not end with a
slash. -/
theorem removeLineComment_quotedCode (code : QuotedCode) :
    removeLineComment code.text = code.text ∧ ∀ comment,
      removeLineComment (code.text ++ lineComment ++ comment) = code.text ↔ code.text.getLast? ≠ some '/' := by
  have h : Uncommented code.text :=
    (uncommented_parts code.parts).code (getLast?_parts code.parts fun q => (mark_ne_slash_at q).1) code.last
  exact ⟨h.kept, h.removeLineComment_comment_iff⟩

end ClassAtlas.Source
