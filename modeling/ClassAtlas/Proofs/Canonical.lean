/-
Canonical lines of code without literals and comments.

Such code is cut after every terminator, wherever its line breaks stand: a statement comes out as one line, and the
blanks after it leave no trace. `canonicalLines_laidOut` says so for a list of statements in any layout.
-/
import ClassAtlas.Proofs.LineByLine

namespace ClassAtlas.Source

open Nesting (Delimiters State)
open Text (Blanks)

/-- starts neither a literal nor a comment -/
def isSimple (c : Char) : Bool := !(c == '"' || c == '\'' || c == '/')

theorem isSimple_of_isBlank {c : Char} (h : Text.isBlank c = true) : isSimple c = true := by
  by_contra hc
  simp only [isSimple, Bool.not_eq_true', Bool.not_eq_false, Bool.or_eq_true, beq_iff_eq] at hc
  rcases hc with (rfl | rfl) | rfl <;> exact absurd h (by decide)

theorem isTerminator_cases {c : Char} (h : isTerminator c = true) : c = ';' ∨ c = '{' ∨ c = '}' := by
  simpa only [isTerminator, Bool.or_eq_true, beq_iff_eq, or_assoc] using h

theorem not_isTerminator_of_isBlank {c : Char} (h : Text.isBlank c = true) : isTerminator c = false := by
  by_contra ht
  rcases isTerminator_cases (Bool.not_eq_false _ ▸ ht) with rfl | rfl | rfl <;> exact absurd h (by decide)

/-! ## Comments -/

theorem isCommentLine_eq_false {line : Text} (h : '/' ∉ line) : isCommentLine line = false := by
  by_contra hp
  obtain ⟨rest, hr⟩ := List.isPrefixOf_iff_prefix.1 (Bool.not_eq_false _ ▸ hp)
  have hs : '/' ∈ Text.trimStart line := by rw [← hr]; exact List.mem_cons_self
  exact h ((List.dropWhile_suffix _).subset hs)

theorem removeComments_eq_self {line : Text} (h : '/' ∉ line) : removeComments line = line := by
  have hblock : removeBlockComments line = line :=
    removeBlockComments_eq_of_none fun before body after he => h (by simp [he, blockOpening])
  have hline : ¬ lineComment <:+: line := fun hi => h (hi.subset List.mem_cons_self)
  rw [removeComments, hblock, removeLineComment, Nesting.before_eq_self hline]

/-! ## Statements of a line -/

/-- one character before the parts of a line, where nothing is in a literal -/
def cutAfter (c : Char) (parts : List Text) : List Text :=
  if isTerminator c then [c] :: parts else Text.consFirst c parts

theorem plain_literals {c : Char} (h : isSimple c = true) : Nesting.Plain Delimiters.literals c := by
  simp only [isSimple, Bool.not_eq_true', Bool.or_eq_false_iff, beq_eq_false_iff_ne] at h
  refine Nesting.plain_of_ne (fun q _ => ?_) fun b hb => ?_
  · cases q with
    | double => exact h.1.1
    | single => exact h.1.2
  · cases b <;> exact absurd hb (by decide)

theorem statementsFrom_eq {text : Text} (h : ∀ c ∈ text, isSimple c = true) {s : State} (hs : s.mode = .code)
    (h0 : s.levels.total = 0) : statementsFrom s text = text.foldr cutAfter [[]] := by
  induction text generalizing s with
  | nil => rfl
  | cons c rest ih =>
    have hstep := Nesting.step_plain (plain_literals (h c List.mem_cons_self)) hs
    have hrest := ih (fun d hd => h d (List.mem_cons_of_mem c hd)) (s := { s with previous := some c }) hs h0
    have htop : s.atTop = true := by rw [Nesting.atTop_code hs, h0]; rfl
    simp only [statementsFrom, hstep, hrest, htop, Bool.true_and, List.foldr_cons, cutAfter]

/-- the canonical lines of a line of simple code -/
theorem canonicalLine_eq {line : Text} (h : ∀ c ∈ line, isSimple c = true) :
    canonicalLine line = ((line.foldr cutAfter [[]]).map Text.trim).filter fun part => !part.isEmpty := by
  have hslash : '/' ∉ line := fun hc => absurd (h _ hc) (by decide)
  have hcode : ¬ isCommentLine line = true := by simp [isCommentLine_eq_false hslash]
  rw [canonicalLine, if_neg hcode, removeComments_eq_self hslash, statements, statementsFrom_eq h rfl rfl]

/-- a statement or a brace as it is written: it ends with the only terminator in it -/
structure IsStatement (s : Text) : Prop where
  ends : ∃ body terminator, s = body ++ [terminator] ∧ isTerminator terminator = true ∧
    ∀ c ∈ body, isTerminator c = false
  starts : Text.StartsSolid s
  simple : ∀ c ∈ s, isSimple c = true
  oneLine : '\n' ∉ s

namespace IsStatement

variable {s : Text}

theorem foldr_cutAfter (h : IsStatement s) (parts : List Text) : s.foldr cutAfter parts = s :: parts := by
  obtain ⟨body, t, rfl, ht, hbody⟩ := h.ends
  have hlast : cutAfter t parts = [t] :: parts := by rw [cutAfter, if_pos ht]
  rw [List.foldr_append, List.foldr_cons, List.foldr_nil, hlast, ← Text.foldr_consFirst]
  refine List.foldr_ext _ _ _ fun c hc parts => ?_
  simp [cutAfter, hbody c hc]

theorem last_not_blank (h : IsStatement s) : ∃ body t, s = body ++ [t] ∧ Text.isBlank t = false := by
  obtain ⟨body, t, rfl, ht, -⟩ := h.ends
  refine ⟨body, t, rfl, ?_⟩
  rcases isTerminator_cases ht with rfl | rfl | rfl <;> decide

theorem trim_eq (h : IsStatement s) : Text.trim s = s := Text.trim_eq_self h.starts h.last_not_blank

/-- a statement in front of a line is a canonical line of its own -/
theorem canonicalLine_append (h : IsStatement s) {line : Text} (hl : ∀ c ∈ line, isSimple c = true) :
    canonicalLine (s ++ line) = s :: canonicalLine line := by
  have hboth : ∀ c ∈ s ++ line, isSimple c = true := fun c hc => (List.mem_append.1 hc).elim (h.simple c) (hl c)
  have hne : s.isEmpty = false := by simpa using h.starts.ne_nil
  rw [canonicalLine_eq hboth, canonicalLine_eq hl, List.foldr_append, h.foldr_cutAfter, List.map_cons, h.trim_eq,
    List.filter_cons_of_pos (by simp [hne])]

end IsStatement

theorem canonicalLine_nil : canonicalLine [] = [] := by
  rw [canonicalLine_eq (by simp)]
  decide

/-- a blank in front of a line is trimmed away -/
theorem canonicalLine_blank {c : Char} (hc : Text.isBlank c = true) {line : Text} (hl : ∀ d ∈ line, isSimple d = true) :
    canonicalLine (c :: line) = canonicalLine line := by
  have hboth : ∀ d ∈ c :: line, isSimple d = true := List.forall_mem_cons.2 ⟨isSimple_of_isBlank hc, hl⟩
  have hterminator := not_isTerminator_of_isBlank hc
  have htrim : ∀ part, Text.trim (c :: part) = Text.trim part := fun part => by
    simp only [Text.trim, Text.trimStart, List.dropWhile_cons_of_pos hc]
  have hcut : ∀ parts, cutAfter c parts = Text.consFirst c parts := fun parts => by simp [cutAfter, hterminator]
  rw [canonicalLine_eq hboth, canonicalLine_eq hl, List.foldr_cons, hcut]
  cases line.foldr cutAfter [[]] with
  | nil =>
    have hempty : Text.trim [c] = [] := htrim []
    simp [Text.consFirst, hempty]
  | cons part parts => simp only [Text.consFirst, List.map_cons, htrim]

/-! ## Statements in any layout -/

theorem lines_simple {text : Text} (h : ∀ c ∈ text, isSimple c = true) :
    ∀ line ∈ Text.lines text, ∀ c ∈ line, isSimple c = true := by
  intro line hline c hc
  exact h c (Text.mem_of_mem_lines hline hc).1

theorem canonicalLines_statement {s rest : Text} (h : IsStatement s) (hr : ∀ c ∈ rest, isSimple c = true) :
    canonicalLines (s ++ rest) = s :: canonicalLines rest := by
  obtain ⟨body, t, hs, ht⟩ := h.last_not_blank
  have hsimple := lines_simple hr
  have hlines : Text.lines (s ++ rest) = s.foldr Text.consFirst (Text.lines rest) := by
    have hfeed := h.oneLine
    rw [hs] at hfeed ⊢
    have hreturn : t ≠ '\r' := fun he => absurd (he ▸ ht) (by decide)
    rw [Text.lines, List.foldr_append, Text.foldr_lineStep_concat (fun hm => hfeed (List.mem_append_left _ hm))
      (fun he => hfeed (by simp [he])) hreturn]
    rfl
  rw [canonicalLines_eq, canonicalLines_eq, hlines]
  revert hsimple
  cases Text.lines rest with
  | nil =>
    intro _
    have hline : s.foldr Text.consFirst [] = [s ++ []] := by
      rw [hs, List.foldr_append, List.append_nil]
      exact Text.foldr_consFirst body [t] []
    rw [hline, List.flatMap_singleton, h.canonicalLine_append (by simp), canonicalLine_nil]
    rfl
  | cons first others =>
    intro hsimple
    rw [Text.foldr_consFirst, List.flatMap_cons, h.canonicalLine_append (hsimple first List.mem_cons_self)]
    rfl

theorem canonicalLines_blank {c : Char} (hc : Text.isBlank c = true) {rest : Text}
    (hr : ∀ d ∈ rest, isSimple d = true) : canonicalLines (c :: rest) = canonicalLines rest := by
  have hsimple := lines_simple hr
  rw [canonicalLines_eq, canonicalLines_eq]
  unfold Text.lines at hsimple ⊢
  rw [List.foldr_cons, Text.lineStep]
  split
  · rw [List.flatMap_cons, canonicalLine_nil, List.nil_append]
  · split
    · rfl
    · revert hsimple
      cases (rest.foldr Text.lineStep ([], false)).1 with
      | nil =>
        intro _
        have hline : canonicalLine [c] = canonicalLine [] := canonicalLine_blank hc (by simp)
        simp only [Text.consFirst, List.flatMap_cons, List.flatMap_nil, List.append_nil, hline, canonicalLine_nil]
      | cons first others =>
        intro hsimple
        simp only [Text.consFirst, List.flatMap_cons, canonicalLine_blank hc (hsimple first List.mem_cons_self)]

theorem canonicalLines_blanks (blanks : Blanks) {rest : Text} (hr : ∀ d ∈ rest, isSimple d = true) :
    canonicalLines (blanks.1 ++ rest) = canonicalLines rest := by
  obtain ⟨blanks, hb⟩ := blanks
  induction blanks with
  | nil => rfl
  | cons c blanks ih =>
    have hblanks : ∀ d ∈ blanks, Text.isBlank d = true := fun d hd => hb d (List.mem_cons_of_mem c hd)
    have hsimple : ∀ d ∈ blanks ++ rest, isSimple d = true := fun d hd =>
      (List.mem_append.1 hd).elim (fun hd => isSimple_of_isBlank (hblanks d hd)) (hr d)
    rw [List.cons_append, canonicalLines_blank (hb c List.mem_cons_self) hsimple]
    exact ih hblanks

/-- statements, each with the blanks that the layout puts after it -/
def laidOut : List Text → (Nat → Blanks) → Text
  | [], _ => []
  | s :: statements, layout => s ++ ((layout 0).1 ++ laidOut statements fun n => layout (n + 1))

theorem laidOut_simple {statements : List Text} (h : ∀ s ∈ statements, IsStatement s) (layout : Nat → Blanks) :
    ∀ c ∈ laidOut statements layout, isSimple c = true := by
  induction statements generalizing layout with
  | nil => simp [laidOut]
  | cons s statements ih =>
    intro c hc
    simp only [laidOut, List.mem_append] at hc
    rcases hc with hc | hc | hc
    · exact (h s List.mem_cons_self).simple c hc
    · exact isSimple_of_isBlank ((layout 0).2 c hc)
    · exact ih (fun t ht => h t (List.mem_cons_of_mem s ht)) _ c hc

/-- **A layout leaves no trace.** The canonical lines are the statements, whatever blanks and line breaks stand after
them. -/
theorem canonicalLines_laidOut {statements : List Text} (h : ∀ s ∈ statements, IsStatement s) (layout : Nat → Blanks) :
    canonicalLines (laidOut statements layout) = statements := by
  induction statements generalizing layout with
  | nil => rfl
  | cons s statements ih =>
    have hrest : ∀ t ∈ statements, IsStatement t := fun t ht => h t (List.mem_cons_of_mem s ht)
    have hsimple := laidOut_simple hrest fun n => layout (n + 1)
    have hblanks : ∀ c ∈ (layout 0).1 ++ laidOut statements (fun n => layout (n + 1)), isSimple c = true := fun c hc =>
      (List.mem_append.1 hc).elim (fun hc => isSimple_of_isBlank ((layout 0).2 c hc)) (hsimple c)
    rw [laidOut, canonicalLines_statement (h s List.mem_cons_self) hblanks, canonicalLines_blanks _ hsimple, ih hrest]

end ClassAtlas.Source
