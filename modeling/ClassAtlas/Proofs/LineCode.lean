/-
Code at the start of a line, and what comes behind it.

Where code ends outside literals and holds no line comment, a line comment behind it is cut off, and a terminator behind
it ends a statement: what stands behind the terminator is read as a line of its own is (`canonicalLine_terminator`).
Block comments are removed without a look at literals, so they must not stand on the line (`BlockFree`).
-/
import ClassAtlas.Proofs.CanonicalForm
import ClassAtlas.Proofs.LineEnds

namespace ClassAtlas.Nesting

/-! ## Searches -/

theorem AtStart.cutFrom_eq {counted : Delimiters} {test : Text → Bool} {s : State} (h : AtStart s) (text : Text) :
    cutFrom counted test s text = cutFrom counted test {} text := by
  cases text with
  | nil => rfl
  | cons c text =>
    have htop : (s.run counted []).atTop = (State.run counted {} []).atTop := h.atTop_run []
    rw [State.run_nil, State.run_nil] at htop
    rw [cutFrom, cutFrom, h.step_eq, htop]

end ClassAtlas.Nesting

namespace ClassAtlas.Source

open Nesting (AtStart Delimiters OutsideLiterals State)

/-! ## Line comments -/

theorem removeLineComment_eq (line : Text) : removeLineComment line =
    ((Nesting.cutFrom Delimiters.literals (lineComment.isPrefixOf ·) {} line).map Prod.fst).getD line := rfl

/-- a line without a line comment outside literals -/
theorem removeLineComment_eq_self_iff {line : Text} : removeLineComment line = line ↔
    Nesting.cutFrom Delimiters.literals (lineComment.isPrefixOf ·) {} line = none := by
  rw [removeLineComment_eq]
  cases hcut : Nesting.cutFrom Delimiters.literals (lineComment.isPrefixOf ·) {} line with
  | none => simp
  | some p =>
    obtain ⟨hplace, -⟩ := Nesting.isPlace_of_cutFrom hcut
    have htext := Nesting.cutFrom_append hcut
    simp only [Option.map_some, Option.getD_some, reduceCtorEq, iff_false]
    intro he
    rw [he] at htext
    exact hplace.ne_nil (List.self_eq_append_right.1 htext)

theorem isPrefixOf_lineComment_cons {c : Char} (hc : c ≠ '/') (rest : Text) :
    lineComment.isPrefixOf (c :: rest) = false := by
  have hne : ('/' == c) = false := beq_eq_false_iff_ne.2 (Ne.symm hc)
  exact (congrArg (· && _) hne).trans (Bool.false_and _)

/-- a comment that starts outside literals is cut off there, if not before -/
theorem length_removeLineComment_le {code : Text} (h : OutsideLiterals code) (comment : Text) :
    (removeLineComment (code ++ lineComment ++ comment)).length ≤ code.length := by
  have hplace : Nesting.IsPlace Delimiters.literals (lineComment.isPrefixOf ·) {} code (lineComment ++ comment) :=
    ⟨List.cons_ne_nil _ _, Nesting.outsideLiterals_iff.1 h, List.isPrefixOf_iff_prefix.2 (List.prefix_append _ _)⟩
  rw [removeLineComment_eq, List.append_assoc]
  cases hcut : Nesting.cutFrom Delimiters.literals (lineComment.isPrefixOf ·) {} (code ++ (lineComment ++ comment)) with
  | none => exact absurd hplace (Nesting.cutFrom_eq_none_iff.1 hcut _ _ rfl)
  | some p => exact (Nesting.isPlace_of_cutFrom hcut).2 _ _ rfl hplace

/-- what stands behind code that no slash ends, for a search from its end -/
theorem cutFrom_lineComment {code rest : Text} (h : removeLineComment code = code)
    (hr : rest.head? ≠ some '/' ∨ code.getLast? ≠ some '/') :
    Nesting.cutFrom Delimiters.literals (lineComment.isPrefixOf ·) {} (code ++ rest) =
      (Nesting.cutFrom Delimiters.literals (lineComment.isPrefixOf ·) (State.run Delimiters.literals {} code)
        rest).map fun p => (code ++ p.1, p.2) := by
  have hnone := removeLineComment_eq_self_iff.1 h
  rw [Nesting.cutFrom_append_or fun x hx hsuffix => ?_, hnone, Option.map_none, Option.none_or]
  -- a comment mark across the border would take a slash from either side
  match x, hx, rest with
  | c :: d :: x, _, _ => rfl
  | [c], _, [] => rfl
  | [c], _, d :: rest =>
    have hlast : code.getLast? = some c := by
      obtain ⟨t, rfl⟩ := hsuffix
      rw [List.getLast?_concat]
    have hnot : ('/' == c && ('/' == d && true)) = false := by
      rcases hr with hne | hne
      · have hd : ('/' == d) = false := beq_eq_false_iff_ne.2 fun he => hne (he ▸ rfl)
        rw [hd, Bool.false_and, Bool.and_false]
      · have hc : ('/' == c) = false := beq_eq_false_iff_ne.2 fun he => hne (he ▸ hlast)
        rw [hc, Bool.false_and]
    exact hnot.trans (Bool.and_false _).symm

/-- code at the start of a line: it ends outside literals and holds no line comment, nor the first half of one -/
structure IsCode (code : Text) : Prop where
  outside : OutsideLiterals code
  uncommented : removeLineComment code = code
  last : code.getLast? ≠ some '/'

namespace IsCode

variable {code : Text}

theorem cutFrom_append (h : IsCode code) (rest : Text) :
    Nesting.cutFrom Delimiters.literals (lineComment.isPrefixOf ·) {} (code ++ rest) =
      (Nesting.cutFrom Delimiters.literals (lineComment.isPrefixOf ·) (State.run Delimiters.literals {} code)
        rest).map fun p => (code ++ p.1, p.2) :=
  cutFrom_lineComment h.uncommented (Or.inr h.last)

theorem removeLineComment_comment (h : IsCode code) (comment : Text) :
    removeLineComment (code ++ lineComment ++ comment) = code := by
  have htop := Nesting.outsideLiterals_iff.1 h.outside
  have hhere : Nesting.cutFrom Delimiters.literals (lineComment.isPrefixOf ·) (State.run Delimiters.literals {} code)
      (lineComment ++ comment) = some ([], lineComment ++ comment) := by
    have hpre : lineComment.isPrefixOf (lineComment ++ comment) = true :=
      List.isPrefixOf_iff_prefix.2 (List.prefix_append _ _)
    show (if (State.run Delimiters.literals {} code).atTop && lineComment.isPrefixOf (lineComment ++ comment)
      then some ([], lineComment ++ comment) else _) = _
    rw [htop, hpre]
    rfl
  rw [removeLineComment_eq, List.append_assoc, h.cutFrom_append, hhere]
  simp

theorem atStart_terminator (h : IsCode code) {c : Char} (hc : isTerminator c = true) :
    AtStart (State.run Delimiters.literals {} (code ++ [c])) := by
  rw [State.run_append]
  exact Source.atStart_terminator (Nesting.levels_run_literals {} code) (Nesting.outsideLiterals_iff.1 h.outside) hc

theorem removeLineComment_terminator (h : IsCode code) {c : Char} (hc : isTerminator c = true) (rest : Text) :
    removeLineComment (code ++ c :: rest) = code ++ c :: removeLineComment rest := by
  have hslash : lineComment.isPrefixOf (c :: rest) = false := by
    rcases isTerminator_cases hc with rfl | rfl | rfl <;> rfl
  have hstart := h.atStart_terminator hc
  rw [State.run_append] at hstart
  have hnext : Nesting.cutFrom Delimiters.literals (lineComment.isPrefixOf ·) (State.run Delimiters.literals {} code)
      (c :: rest) = (Nesting.cutFrom Delimiters.literals (lineComment.isPrefixOf ·) {} rest).map
        fun p => (c :: p.1, p.2) := by
    rw [Nesting.cutFrom, hslash, Bool.and_false, if_neg Bool.false_ne_true, ← hstart.cutFrom_eq rest]
    rfl
  rw [removeLineComment_eq, removeLineComment_eq, h.cutFrom_append, hnext]
  cases Nesting.cutFrom Delimiters.literals (lineComment.isPrefixOf ·) {} rest with
  | none => rfl
  | some p => rfl

theorem of_blanks {blanks : Text} (h : ∀ c ∈ blanks, Text.isBlank c = true) : IsCode blanks where
  outside := Nesting.inQuotes_eq_false_iff.2 (Nesting.atStart_init.run_blanks h).code
  uncommented := by
    refine Nesting.before_eq_self fun hi => ?_
    exact ne_slash_of_isBlank (h '/' (hi.subset List.mem_cons_self)) rfl
  last := fun hl => ne_slash_of_isBlank (h '/' (List.mem_of_getLast? hl)) rfl

end IsCode

/-! ## Statements -/

/-- the statements of a line, trimmed, without the empty ones -/
def trimmedStatements (line : Text) : List Text := ((statements line).map Text.trim).filter fun part => !part.isEmpty

theorem statementsFrom_anew {s : State} (h : AtStart s) (line : Text) :
    statementsFrom s line = statementsFrom {} line := by
  cases line with
  | nil => rfl
  | cons c line =>
    have htop : (s.run Delimiters.literals []).atTop = (State.run Delimiters.literals {} []).atTop := h.atTop_run []
    rw [State.run_nil, State.run_nil] at htop
    rw [statementsFrom, statementsFrom, h.step_eq, htop]

/-- a terminator outside literals ends a statement, whatever comes behind it -/
theorem exists_statementsFrom_terminator {s : State} {code : Text}
    (htop : (s.run Delimiters.literals code).atTop = true) {c : Char} (hc : isTerminator c = true) :
    ∃ part parts, ∀ rest, statementsFrom s (code ++ c :: rest) =
      part :: parts ++ statementsFrom (s.run Delimiters.literals (code ++ [c])) rest := by
  induction code generalizing s with
  | nil =>
    refine ⟨[c], [], fun rest => ?_⟩
    rw [State.run_nil] at htop
    rw [List.nil_append, statementsFrom, htop, hc]
    rfl
  | cons d code ih =>
    obtain ⟨part, parts, hparts⟩ := ih (s := s.step Delimiters.literals d) htop
    by_cases hd : (s.atTop && isTerminator d) = true
    · refine ⟨[d], part :: parts, fun rest => ?_⟩
      rw [List.cons_append, statementsFrom, if_pos hd, hparts]
      rfl
    · refine ⟨d :: part, parts, fun rest => ?_⟩
      rw [List.cons_append, statementsFrom, if_neg hd, hparts]
      rfl

theorem trimmedStatements_terminator {code : Text} (h : IsCode code) {c : Char} (hc : isTerminator c = true)
    (rest : Text) :
    trimmedStatements (code ++ c :: rest) = trimmedStatements (code ++ [c]) ++ trimmedStatements rest := by
  obtain ⟨part, parts, hparts⟩ := exists_statementsFrom_terminator (Nesting.outsideLiterals_iff.1 h.outside) hc
  have hanew := statementsFrom_anew (h.atStart_terminator hc)
  have hone : statementsFrom {} (code ++ [c]) = part :: parts ++ [[]] := by rw [hparts, hanew]; rfl
  have hempty : (([[]] : List Text).map Text.trim).filter (fun part => !part.isEmpty) = [] := rfl
  rw [trimmedStatements, trimmedStatements, trimmedStatements, statements, statements, statements, hone, hparts, hanew,
    List.map_append, List.map_append, List.filter_append, List.filter_append, hempty, List.append_nil]

/-- no block comment ends on the line -/
def BlockFree (line : Text) : Prop :=
  ∀ before body after, line ≠ before ++ blockOpening ++ body ++ blockClosing ++ after

theorem BlockFree.of_append {a b c : Text} (h : BlockFree (a ++ b ++ c)) : BlockFree b := by
  intro before body after he
  refine h (a ++ before) body (after ++ c) ?_
  rw [he]
  simp only [List.append_assoc]

theorem BlockFree.of_not_mem {line : Text} (h : '/' ∉ line) : BlockFree line := by
  intro before body after he
  refine h ?_
  rw [he]
  simp [blockOpening]

/-- a line that holds a comment alone has no statement, as the comment is cut off -/
theorem canonicalLine_of_blockFree {line : Text} (h : BlockFree line) :
    canonicalLine line = trimmedStatements (removeLineComment line) := by
  have hremove : removeComments line = removeLineComment line := by
    rw [removeComments, removeBlockComments_eq_of_none h]
  unfold canonicalLine
  split
  · rename_i hcomment
    obtain ⟨comment, htext⟩ := List.isPrefixOf_iff_prefix.1 hcomment
    have hblanks : ∀ c ∈ line.takeWhile Text.isBlank, Text.isBlank c = true := fun c hc => List.mem_takeWhile_imp hc
    have hline : line = line.takeWhile Text.isBlank ++ lineComment ++ comment := by
      conv_lhs => rw [← List.takeWhile_append_dropWhile (p := Text.isBlank) (l := line)]
      rw [List.append_assoc, htext, Text.trimStart]
    have hcut := (IsCode.of_blanks hblanks).removeLineComment_comment comment
    rw [← hline] at hcut
    have hslash : '/' ∉ line.takeWhile Text.isBlank := fun hm => ne_slash_of_isBlank (hblanks '/' hm) rfl
    have hnone := canonicalLine_of_blanks hblanks
    rw [canonicalLine, isCommentLine_eq_false hslash, removeComments_eq_self hslash] at hnone
    rw [hcut]
    exact hnone.symm
  · rw [hremove]
    rfl

theorem canonicalLine_comment {code : Text} (h : IsCode code) {comment : Text}
    (hb : BlockFree (code ++ lineComment ++ comment)) :
    canonicalLine (code ++ lineComment ++ comment) = canonicalLine code := by
  have hcode : BlockFree ([] ++ code ++ (lineComment ++ comment)) := by rwa [List.nil_append, ← List.append_assoc]
  rw [canonicalLine_of_blockFree hb, canonicalLine_of_blockFree hcode.of_append, h.removeLineComment_comment,
    h.uncommented]

/-- **a terminator outside literals ends the line** -/
theorem canonicalLine_terminator {code : Text} (h : IsCode code) {c : Char} (hc : isTerminator c = true) {rest : Text}
    (hb : BlockFree (code ++ c :: rest)) :
    canonicalLine (code ++ c :: rest) = canonicalLine (code ++ [c]) ++ canonicalLine rest := by
  have hfirst : BlockFree ([] ++ (code ++ [c]) ++ rest) := by simpa using hb
  have hrest : BlockFree ((code ++ [c]) ++ rest ++ []) := by simpa using hb
  rw [canonicalLine_of_blockFree hb, canonicalLine_of_blockFree hfirst.of_append,
    canonicalLine_of_blockFree hrest.of_append, h.removeLineComment_terminator hc, h.removeLineComment_terminator hc,
    trimmedStatements_terminator h hc]
  rfl

/-! ## The scan that breaks statements -/

namespace Breaker

theorem run_append (b : Breaker) (x y : Text) : b.run (x ++ y) = (b.run x).run y := List.foldl_append

theorem state_run {text : Text} (h : '\n' ∉ text) (b : Breaker) :
    (b.run text).state = b.state.run Delimiters.literals text := by
  induction text generalizing b with
  | nil => rfl
  | cons c text ih =>
    have hc : c ≠ '\n' := fun he => h (he ▸ List.mem_cons_self)
    have hstep : b.run (c :: text) = (b.step c).run text := rfl
    rw [hstep, ih (fun hm => h (List.mem_cons_of_mem c hm)), State.run_cons, step, if_neg hc]

end Breaker

theorem breakStatements_concat (text : Text) {c : Char} (hc : c ≠ '\n') : breakStatements (text ++ [c]) =
    breakStatements text ++ if (Breaker.run {} text).state.atTop && isTerminator c then [c, '\n'] else [c] := by
  have hstep : Breaker.run {} (text ++ [c]) = (Breaker.run {} text).step c := Breaker.run_append {} text [c]
  rw [breakStatements, breakStatements, hstep, Breaker.step, if_neg hc]
  dsimp only
  split <;> simp

theorem Breaker.levels_run (text : Text) : (Breaker.run {} text).state.levels = {} := by
  induction text using List.reverseRecOn with
  | nil => rfl
  | append_singleton text c ih =>
    have hstep : Breaker.run {} (text ++ [c]) = (Breaker.run {} text).step c := Breaker.run_append {} text [c]
    rw [hstep, Breaker.step]
    split
    · rfl
    · exact (Nesting.levels_step_literals _ c).trans ih

end ClassAtlas.Source
