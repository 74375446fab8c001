/-
The form of canonical lines, and that nothing but comments and blanks is lost on the way to them.

A line is canonical if it is not empty, has no blank at either end, holds a terminator outside literals only as its last
character, and holds no line comment outside literals, where a scan of the line alone decides what a literal is
(`IsCanonical`). That scan agrees with the one over the whole source line, because the parts of a line start in code
right after a terminator, and trimming takes off no more than blanks.
-/
import Mathlib.Data.List.Forall2
import ClassAtlas.Proofs.Canonical

namespace ClassAtlas.Source

open Nesting (AtStart Delimiters OutsideLiterals State)

/-! ## The parts of a line -/

/-- a terminator at the top level, for a scan from this state, stands at the end -/
def Unbroken (s : State) (part : Text) : Prop :=
  ∀ a c b, part = a ++ c :: b → (s.run Delimiters.literals a).atTop = true → isTerminator c = true → b = []

/-- a part of a line at which a scan from this state stands at a start -/
structure IsPart (s : State) (line part : Text) : Prop where
  found : ∃ a b, line = a ++ part ++ b ∧ AtStart (s.run Delimiters.literals a)
  unbroken : Unbroken {} part

theorem Unbroken.anew {s : State} {part : Text} (h : Unbroken s part) (hs : AtStart s) : Unbroken {} part := by
  intro a c b hp htop
  rw [← hs.atTop_run a] at htop
  exact h a c b hp htop

theorem unbroken_cons {s : State} {c : Char} {part : Text} (hc : ¬ (s.atTop && isTerminator c) = true)
    (h : Unbroken (s.step Delimiters.literals c) part) : Unbroken s (c :: part) := by
  intro a d b hp htop ht
  cases a with
  | nil =>
    obtain ⟨rfl, -⟩ := List.cons_eq_cons.1 hp
    exact absurd (Bool.and_eq_true_iff.2 ⟨htop, ht⟩) hc
  | cons e a =>
    obtain ⟨rfl, rfl⟩ := List.cons_eq_cons.1 hp
    exact h a d b rfl htop ht

theorem IsPart.cons {s : State} {c : Char} {line part : Text} (h : IsPart (s.step Delimiters.literals c) line part) :
    IsPart s (c :: line) part := by
  obtain ⟨a, b, hline, hs⟩ := h.found
  exact ⟨⟨c :: a, b, by rw [hline]; rfl, hs⟩, h.unbroken⟩

theorem atStart_terminator {s : State} (hl : s.levels = {}) (htop : s.atTop = true) {c : Char}
    (hc : isTerminator c = true) : AtStart (s.step Delimiters.literals c) := by
  have hmode : s.mode = .code := by
    rw [Nesting.atTop_eq_not_inQuotes hl] at htop
    simpa [State.inQuotes] using htop
  rcases isTerminator_cases hc with rfl | rfl | rfl
  · exact Nesting.atStart_step hl hmode (plain_literals rfl) (by decide)
  · exact Nesting.atStart_step hl hmode (plain_literals rfl) (by decide)
  · exact Nesting.atStart_step hl hmode (plain_literals rfl) (by decide)

/-- the first part goes on where the scan stands, and each other one starts anew -/
theorem exists_statementsFrom {s : State} (hl : s.levels = {}) (line : Text) :
    ∃ first others, statementsFrom s line = first :: others ∧ Unbroken s first ∧ (∃ b, line = first ++ b) ∧
      ∀ part ∈ others, IsPart s line part := by
  induction line generalizing s with
  | nil =>
    refine ⟨[], [], rfl, fun a c b hp => ?_, ⟨[], rfl⟩, by simp⟩
    simp at hp
  | cons c rest ih =>
    have hl' := (Nesting.levels_step_literals s c).trans hl
    obtain ⟨first, others, hparts, hfirst, ⟨b, hb⟩, hothers⟩ := ih hl'
    unfold statementsFrom
    rw [hparts]
    by_cases hc : (s.atTop && isTerminator c) = true
    · -- the statement ends here, so the first part of the rest is one that starts anew
      obtain ⟨htop, ht⟩ := Bool.and_eq_true_iff.1 hc
      have hstart := atStart_terminator hl htop ht
      refine ⟨[c], first :: others, by rw [if_pos hc], fun a d b hp _ _ => ?_, ⟨rest, rfl⟩, fun part hpart => ?_⟩
      · cases a with
        | nil => exact (List.cons_eq_cons.1 hp).2.symm
        | cons e a => simp at hp
      · rcases List.mem_cons.1 hpart with rfl | hpart
        · exact ⟨⟨[c], b, by rw [hb]; rfl, hstart⟩, hfirst.anew hstart⟩
        · exact (hothers part hpart).cons
    · refine ⟨c :: first, others, by rw [if_neg hc]; rfl, unbroken_cons hc hfirst, ⟨b, by rw [hb]; rfl⟩, ?_⟩
      intro part hpart
      exact (hothers part hpart).cons

theorem isPart_of_mem_statements {line part : Text} (h : part ∈ statements line) : IsPart {} line part := by
  obtain ⟨first, others, hparts, hfirst, ⟨b, hb⟩, hothers⟩ := exists_statementsFrom (s := {}) rfl line
  rw [statements, hparts] at h
  rcases List.mem_cons.1 h with rfl | h
  · exact ⟨⟨[], b, hb, Nesting.atStart_init⟩, hfirst⟩
  · exact hothers part h

/-- blanks around a part change nothing -/
theorem IsPart.trim {line part : Text} (h : IsPart {} line part) : IsPart {} line (Text.trim part) := by
  obtain ⟨before, after, hpart⟩ := Text.exists_trim part
  obtain ⟨a, b, hline, hs⟩ := h.found
  have hblanks : AtStart (State.run Delimiters.literals {} before.1) := Nesting.atStart_init.run_blanks before.2
  refine ⟨⟨a ++ before.1, after.1 ++ b, ?_, ?_⟩, fun x c y hp htop ht => ?_⟩
  · rw [hline]
    conv_lhs => rw [hpart]
    simp only [List.append_assoc]
  · rw [State.run_append]
    exact hs.run_blanks before.2
  · have hwhole : part = (before.1 ++ x) ++ c :: (y ++ after.1) := by
      conv_lhs => rw [hpart, hp]
      simp only [List.append_assoc, List.cons_append]
    rw [← hblanks.atTop_run x, ← State.run_append] at htop
    exact (List.append_eq_nil_iff.1 (h.unbroken _ c _ hwhole htop ht)).1

/-! ## Canonical lines -/

/-- the form of a canonical line -/
structure IsCanonical (line : Text) : Prop where
  ne_nil : line ≠ []
  trimmed : Text.trim line = line
  /-- a terminator outside literals is the last character -/
  terminator_last : ∀ a c b, line = a ++ c :: b → OutsideLiterals a → isTerminator c = true → b = []
  /-- no line comment starts outside literals -/
  comment_free : ∀ a b, line = a ++ lineComment ++ b → ¬ OutsideLiterals a

theorem exists_of_mem_canonicalLine {line part : Text} (h : part ∈ canonicalLine line) :
    ∃ whole ∈ statements (removeComments line), part = Text.trim whole ∧ part ≠ [] := by
  unfold canonicalLine at h
  split at h
  · contradiction
  · obtain ⟨hmem, hne⟩ := List.mem_filter.1 h
    obtain ⟨whole, hwhole, rfl⟩ := List.mem_map.1 hmem
    exact ⟨whole, hwhole, rfl, by simpa using hne⟩

theorem isCanonical_of_mem_canonicalLine {line part : Text} (h : part ∈ canonicalLine line) : IsCanonical part := by
  obtain ⟨whole, hwhole, rfl, hne⟩ := exists_of_mem_canonicalLine h
  have hpart := (isPart_of_mem_statements hwhole).trim
  obtain ⟨hstarts, hends⟩ := Text.solid_trim hne
  refine ⟨hne, Text.trim_eq_self hstarts hends, fun a c b hp ha => ?_, fun a b hp ha => ?_⟩
  · exact hpart.unbroken a c b hp (Nesting.outsideLiterals_iff.1 ha)
  · -- the comment would stand outside the literals of the whole line, and would have been cut off
    obtain ⟨x, y, hline, hs⟩ := hpart.found
    have hcut : removeComments line = (x ++ a) ++ lineComment ++ (b ++ y) := by
      rw [hline, hp]
      simp only [List.append_assoc]
    have htop := Nesting.not_atTop_of_before (by decide) hcut
    rw [State.run_append, hs.atTop_run a, Nesting.outsideLiterals_iff.1 ha] at htop
    contradiction

theorem isCanonical_of_mem_canonicalLines {source line : Text} (h : line ∈ canonicalLines source) :
    IsCanonical line := by
  rw [canonicalLines_eq] at h
  obtain ⟨l, -, hline⟩ := List.mem_flatMap.1 h
  exact isCanonical_of_mem_canonicalLine hline

theorem feed_not_mem_canonicalLines {source line : Text} (h : line ∈ canonicalLines source) : '\n' ∉ line := by
  rw [canonicalLines_eq] at h
  obtain ⟨l, hl, hline⟩ := List.mem_flatMap.1 h
  obtain ⟨whole, hwhole, rfl, -⟩ := exists_of_mem_canonicalLine hline
  have hfeed : '\n' ∉ l := fun hn => (Text.mem_of_mem_lines hl hn).2 rfl
  intro hn
  refine feed_not_mem_statements (feed_not_mem_removeComments hfeed) whole hwhole ?_
  obtain ⟨before, after, hw⟩ := Text.exists_trim whole
  rw [hw]
  exact List.mem_append_left _ (List.mem_append_right _ hn)

/-- the lines of the canonical text are the canonical lines -/
theorem lines_canonical (source : Text) : Text.lines (canonical source) = canonicalLines source := by
  have hreturn : ∀ line ∈ canonicalLines source, Text.dropReturn line = line := by
    intro line hline
    have hform := isCanonical_of_mem_canonicalLines hline
    have hne : Text.trim line ≠ [] := by rw [hform.trimmed]; exact hform.ne_nil
    obtain ⟨rest, c, hl, hc⟩ := (Text.solid_trim hne).2
    rw [hform.trimmed] at hl
    rw [hl, Text.dropReturn_concat]
    rintro rfl
    exact absurd hc (by decide)
  rw [canonical, Text.lines_unlines fun line hline => feed_not_mem_canonicalLines hline]
  conv_rhs => rw [← List.map_id (canonicalLines source)]
  exact List.map_congr_left hreturn

/-! ## Nothing else is lost -/

theorem withoutBlanks_unlines (ls : List Text) :
    Text.withoutBlanks (Text.unlines ls) = ls.flatMap Text.withoutBlanks := by
  induction ls with
  | nil => rfl
  | cons line ls ih =>
    have hfeed : Text.withoutBlanks ('\n' :: Text.unlines ls) = Text.withoutBlanks (Text.unlines ls) := rfl
    rw [Text.unlines_cons, Text.withoutBlanks_append, hfeed, ih, List.flatMap_cons]

theorem withoutBlanks_parts (parts : List Text) :
    ((parts.map Text.trim).filter fun part => !part.isEmpty).flatMap Text.withoutBlanks =
      Text.withoutBlanks parts.flatten := by
  induction parts with
  | nil => rfl
  | cons part parts ih =>
    rw [List.flatten_cons, Text.withoutBlanks_append, ← ih, ← Text.withoutBlanks_trim part, List.map_cons]
    by_cases hp : Text.trim part = []
    · rw [List.filter_cons_of_neg (by simp [hp]), hp]
      rfl
    · rw [List.filter_cons_of_pos (by simp [hp]), List.flatMap_cons]

theorem withoutBlanks_canonicalLine {line : Text} (h : isCommentLine line = false) :
    (canonicalLine line).flatMap Text.withoutBlanks = Text.withoutBlanks (removeComments line) := by
  have hcode : ¬ isCommentLine line = true := by simp [h]
  rw [canonicalLine, if_neg hcode, withoutBlanks_parts, statements, flatten_statementsFrom]

theorem withoutBlanks_canonical (source : Text) :
    Text.withoutBlanks (canonical source) = (codeLines source).flatMap Text.withoutBlanks := by
  rw [canonical, withoutBlanks_unlines, canonicalLines_eq, codeLines]
  induction Text.lines source with
  | nil => rfl
  | cons line ls ih =>
    by_cases hc : isCommentLine line = true
    · simpa [hc, canonicalLine] using ih
    · have hline := withoutBlanks_canonicalLine (Bool.not_eq_true _ ▸ hc)
      simp only [List.flatMap_cons, List.flatMap_append, hline, ih, hc, List.filter_cons, Bool.not_false, if_true,
        List.map_cons]

/-- **Canonical text.** Every line of it has the canonical form. Apart from blanks it holds, in their order, the
characters of the source lines that are no comment lines, without their block comments and up to a line comment. -/
theorem canonical_form (source : Text) :
    (∀ line ∈ Text.lines (canonical source), IsCanonical line) ∧
    ∃ bare, List.Forall₂ SpansRemoved ((Text.lines source).filter fun line => !isCommentLine line) bare ∧
      Text.withoutBlanks (canonical source) =
        bare.flatMap fun line => Text.withoutBlanks (removeLineComment line) := by
  constructor
  · intro line hline
    rw [lines_canonical] at hline
    exact isCanonical_of_mem_canonicalLines hline
  · refine ⟨((Text.lines source).filter fun line => !isCommentLine line).map removeBlockComments, ?_, ?_⟩
    · rw [List.forall₂_map_right_iff, List.forall₂_same]
      intro line _
      exact spansRemoved_iff.2 rfl
    · rw [withoutBlanks_canonical, codeLines, List.flatMap_map, List.flatMap_map]
      rfl

/-- slashes and a semicolon inside a verbatim literal and one in a literal that is left open, with comments around -/
theorem canonical_form_literals :
    let source : Text := "a = @\"//;\"; /* b; */ c = ';\r\n  // d\n"
    let line : Text := ['c', ' ', '=', ' ', '\'', ';']
    line ∈ Text.lines (canonical source) ∧ IsCanonical line := by
  intro source line
  have hline : line ∈ Text.lines (canonical source) := by decide +kernel
  exact ⟨hline, (canonical_form source).1 line hline⟩

end ClassAtlas.Source
