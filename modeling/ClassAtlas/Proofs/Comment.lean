/-
What is left of a line without its comments.

`SpansRemoved` says which block comments a line loses: the first opening mark goes with all up to the first closing mark
after it, and so on behind that, as long as an opened comment is closed. `removeBlockComments` is the function of that
relation (`spansRemoved_iff`). Blanks at the end of a line take no part in a comment mark, so all that removes comments
leaves them at the end or cuts them off.
-/
import Mathlib.Data.List.Infix
import ClassAtlas.Proofs.Search
import ClassAtlas.Source.Comment

namespace ClassAtlas.Source

def blockOpening : Text := ['/', '*']

def blockClosing : Text := ['*', '/']

/-! ## Block comments -/

/-- a line and what is left of it without its block comments -/
inductive SpansRemoved : Text → Text → Prop where
  /-- no block comment ends on the line -/
  | none {line : Text} : (∀ before body after, line ≠ before ++ blockOpening ++ body ++ blockClosing ++ after) →
      SpansRemoved line line
  /-- the first comment, up to the first mark that closes it -/
  | span {before body after rest : Text} : ¬ blockOpening <:+: before → ¬ blockClosing <:+: body →
      SpansRemoved after rest → SpansRemoved (before ++ blockOpening ++ body ++ blockClosing ++ after) (before ++ rest)

theorem closeComment?_append {body : Text} (h : ¬ blockClosing <:+: body) (after : Text) :
    closeComment? (body ++ blockClosing ++ after) = some after := by
  induction body with
  | nil => rfl
  | cons c body ih =>
    have hrest : ¬ blockClosing <:+: body := fun hi => h (List.infix_cons_iff.2 (Or.inr hi))
    have hhere : ∀ rest, c = '*' → body ++ blockClosing ++ after ≠ '/' :: rest := by
      rintro rest rfl he
      cases body with
      | nil => simp [blockClosing] at he
      | cons d body =>
        obtain rfl : d = '/' := (List.cons_eq_cons.1 he).1
        exact h ⟨[], body, rfl⟩
    have hskip : closeComment? (c :: (body ++ blockClosing ++ after)) =
        closeComment? (body ++ blockClosing ++ after) :=
      closeComment?.eq_3 _ _ fun rest hc he => hhere rest hc he
    exact hskip.trans (ih hrest)

theorem closeComment?_eq_some {s after : Text} (h : closeComment? s = some after) :
    ∃ body, s = body ++ blockClosing ++ after ∧ ¬ blockClosing <:+: body := by
  fun_induction closeComment? s with
  | case1 => simp at h
  | case2 rest =>
    obtain rfl := by simpa using h
    exact ⟨[], rfl, by simp [blockClosing]⟩
  | case3 c rest hc ih =>
    obtain ⟨body, rfl, hbody⟩ := ih h
    refine ⟨c :: body, rfl, fun hi => ?_⟩
    rcases List.infix_cons_iff.1 hi with ⟨t, ht⟩ | hi
    · obtain ⟨rfl, rfl⟩ := List.cons_eq_cons.1 ht
      exact hc _ rfl rfl
    · exact hbody hi

theorem not_closing_of_closeComment? {s : Text} (h : closeComment? s = none) : ¬ blockClosing <:+: s := by
  fun_induction closeComment? s with
  | case1 => simp [blockClosing]
  | case2 rest => simp at h
  | case3 c rest hc ih =>
    intro hi
    rcases List.infix_cons_iff.1 hi with ⟨t, ht⟩ | hi
    · obtain ⟨rfl, rfl⟩ := List.cons_eq_cons.1 ht
      exact hc _ rfl rfl
    · exact ih h hi

theorem removeBlockComments_closed {rest after : Text} (h : closeComment? rest = some after) :
    removeBlockComments (blockOpening ++ rest) = removeBlockComments after := by
  have hline : blockOpening ++ rest = '/' :: '*' :: rest := rfl
  rw [hline, removeBlockComments]
  split
  · rename_i after' h'
    rw [h] at h'
    rw [Option.some.inj h']
  · rename_i h'
    rw [h] at h'
    contradiction

theorem removeBlockComments_cons {c : Char} {rest : Text} (h : ¬ blockOpening <+: c :: rest) :
    removeBlockComments (c :: rest) = c :: removeBlockComments rest := by
  refine removeBlockComments.eq_3 _ _ ?_
  rintro rest' rfl rfl
  exact h ⟨rest', rfl⟩

/-- an opening mark that straddles two texts would end with the first character of the second one -/
theorem not_opening_prefix {before : Text} {c : Char} (h : ¬ blockOpening <:+: c :: before) (rest : Text) :
    ¬ blockOpening <+: c :: (before ++ blockOpening ++ rest) := by
  rintro ⟨t, ht⟩
  obtain ⟨rfl, htail⟩ := List.cons_eq_cons.1 ht
  cases before with
  | nil => simp [blockOpening] at htail
  | cons d before =>
    obtain rfl : '*' = d := (List.cons_eq_cons.1 htail).1
    exact h ⟨[], before, rfl⟩

theorem removeBlockComments_span {before body : Text} (hbefore : ¬ blockOpening <:+: before)
    (hbody : ¬ blockClosing <:+: body) (after : Text) :
    removeBlockComments (before ++ blockOpening ++ body ++ blockClosing ++ after) =
      before ++ removeBlockComments after := by
  induction before with
  | nil =>
    have hclosed := removeBlockComments_closed (closeComment?_append hbody after)
    simpa using hclosed
  | cons c before ih =>
    have hopen := not_opening_prefix hbefore (body ++ blockClosing ++ after)
    have hrest : ¬ blockOpening <:+: before := fun hi => hbefore (List.infix_cons_iff.2 (Or.inr hi))
    simp only [List.cons_append, List.append_assoc] at hopen ih ⊢
    rw [removeBlockComments_cons hopen, ih hrest]

theorem removeBlockComments_eq_of_none {line : Text}
    (h : ∀ before body after, line ≠ before ++ blockOpening ++ body ++ blockClosing ++ after) :
    removeBlockComments line = line := by
  fun_induction removeBlockComments line with
  | case1 => rfl
  | case2 rest after hclose _ =>
    obtain ⟨body, rfl, -⟩ := closeComment?_eq_some hclose
    exact absurd (by simp [blockOpening]) (h [] body after)
  | case3 rest _ => rfl
  | case4 c rest _ ih =>
    rw [ih fun before body after he => h (c :: before) body after (by rw [he]; rfl)]

theorem SpansRemoved.eq_removeBlockComments {line rest : Text} (h : SpansRemoved line rest) :
    rest = removeBlockComments line := by
  induction h with
  | none h => exact (removeBlockComments_eq_of_none h).symm
  | span hbefore hbody _ ih => rw [removeBlockComments_span hbefore hbody, ih]

theorem SpansRemoved.cons {line rest : Text} (h : SpansRemoved line rest) {c : Char}
    (hc : ¬ blockOpening <+: c :: line) : SpansRemoved (c :: line) (c :: rest) := by
  cases h with
  | none h =>
    refine .none fun before body after he => ?_
    cases before with
    | nil => exact hc ⟨body ++ blockClosing ++ after, by rw [he]; simp⟩
    | cons d before =>
      obtain ⟨rfl, rfl⟩ := List.cons_eq_cons.1 he
      exact h before body after rfl
  | @span before body after rest hbefore hbody h =>
    have hfirst : ¬ blockOpening <:+: c :: before := by
      intro hi
      rcases List.infix_cons_iff.1 hi with ⟨t, ht⟩ | hi
      · refine hc ⟨t ++ blockOpening ++ body ++ blockClosing ++ after, ?_⟩
        simp only [← List.append_assoc, ht, List.cons_append]
      · exact hbefore hi
    exact SpansRemoved.span hfirst hbody h

theorem spansRemoved_removeBlockComments (line : Text) : SpansRemoved line (removeBlockComments line) := by
  fun_induction removeBlockComments line with
  | case1 => exact .none fun before body after => by simp [blockOpening]
  | case2 rest after hclose ih =>
    obtain ⟨body, rfl, hbody⟩ := closeComment?_eq_some hclose
    have hnil : ¬ blockOpening <:+: [] := by simp [blockOpening]
    simpa [blockOpening] using SpansRemoved.span hnil hbody ih
  | case3 rest hclose =>
    refine .none fun before body after he => not_closing_of_closeComment? hclose ?_
    -- wherever the comment opened, its closing mark would stand behind the first opening one
    rcases before with _ | ⟨d, _ | ⟨e, before⟩⟩
    · obtain rfl : rest = body ++ blockClosing ++ after := by simpa [blockOpening] using he
      exact ⟨body, after, rfl⟩
    · simp [blockOpening] at he
    · obtain ⟨-, -, rfl⟩ := by simpa [blockOpening] using he
      exact ⟨before ++ blockOpening ++ body, after, by simp [blockOpening]⟩
  | case4 c rest hc ih =>
    refine ih.cons ?_
    rintro ⟨t, ht⟩
    obtain ⟨rfl, rfl⟩ := List.cons_eq_cons.1 ht
    exact hc t rfl rfl

/-- **Block comments are removed one after the other**, each up to the first mark that closes it. -/
theorem spansRemoved_iff {line rest : Text} : SpansRemoved line rest ↔ rest = removeBlockComments line := by
  constructor
  · exact SpansRemoved.eq_removeBlockComments
  · rintro rfl
    exact spansRemoved_removeBlockComments line

theorem SpansRemoved.sublist {line rest : Text} (h : SpansRemoved line rest) : rest.Sublist line := by
  induction h with
  | none _ => exact List.Sublist.refl _
  | span _ _ _ ih =>
    rw [List.append_assoc, List.append_assoc, List.append_assoc]
    refine (List.Sublist.refl _).append (ih.trans ?_)
    simp only [← List.append_assoc]
    exact List.sublist_append_right _ _

theorem SpansRemoved.subset {line rest : Text} (h : SpansRemoved line rest) : rest ⊆ line := h.sublist.subset

/-! ## A blank at the end of a line -/

theorem ne_slash_of_isBlank {c : Char} (h : Text.isBlank c = true) : c ≠ '/' := by
  rintro rfl
  exact absurd h (by decide)

theorem SpansRemoved.concat {line rest : Text} (h : SpansRemoved line rest) {c : Char} (hc : c ≠ '/') :
    SpansRemoved (line ++ [c]) (rest ++ [c]) := by
  induction h with
  | none h =>
    refine .none fun before body after he => ?_
    rcases List.eq_nil_or_concat' after with rfl | ⟨after, d, rfl⟩
    · have hlast := congrArg List.getLast? he
      simp [blockClosing] at hlast
      exact hc hlast
    · rw [← List.append_assoc] at he
      exact h before body after (List.append_inj_left' he rfl)
  | @span before body after rest hbefore hbody _ ih =>
    have hspan := SpansRemoved.span hbefore hbody ih
    simpa only [List.append_assoc] using hspan

theorem removeBlockComments_concat (line : Text) {c : Char} (hc : Text.isBlank c = true) :
    removeBlockComments (line ++ [c]) = removeBlockComments line ++ [c] :=
  ((spansRemoved_removeBlockComments line).concat (ne_slash_of_isBlank hc)).eq_removeBlockComments.symm

theorem isPrefixOf_lineComment_concat (s : Text) {c : Char} (hc : c ≠ '/') :
    lineComment.isPrefixOf (s ++ [c]) = lineComment.isPrefixOf s := by
  rw [Bool.eq_iff_iff, List.isPrefixOf_iff_prefix, List.isPrefixOf_iff_prefix, List.prefix_concat_iff]
  refine ⟨fun h => h.resolve_left fun he => ?_, Or.inr⟩
  have hlast := congrArg List.getLast? he
  rw [List.getLast?_concat] at hlast
  exact hc (Option.some.inj hlast).symm

theorem isCommentLine_concat (line : Text) {c : Char} (hc : Text.isBlank c = true) :
    isCommentLine (line ++ [c]) = isCommentLine line := by
  have htrim : Text.trimStart (line ++ [c]) =
      if (Text.trimStart line).isEmpty then [] else Text.trimStart line ++ [c] := by
    simp [Text.trimStart, List.dropWhile_append, hc]
  unfold isCommentLine
  rw [htrim]
  split
  · rename_i hempty
    rw [List.isEmpty_iff.1 hempty]
  · exact isPrefixOf_lineComment_concat _ (ne_slash_of_isBlank hc)

/-- the blank stays at the end, or goes with a line comment -/
theorem removeLineComment_concat (line : Text) {c : Char} (hc : Text.isBlank c = true) :
    removeLineComment (line ++ [c]) = removeLineComment line ∨
      removeLineComment (line ++ [c]) = removeLineComment line ++ [c] := by
  have htest : ∀ b, lineComment.isPrefixOf (b ++ [c]) = lineComment.isPrefixOf b := fun b =>
    isPrefixOf_lineComment_concat b (ne_slash_of_isBlank hc)
  have hcut : Nesting.cut? Nesting.Delimiters.literals lineComment (line ++ [c]) =
      (Nesting.cut? Nesting.Delimiters.literals lineComment line).map fun p => (p.1, p.2 ++ [c]) :=
    Nesting.cutFrom_concat htest rfl {} line
  unfold removeLineComment Nesting.before
  rw [hcut]
  cases Nesting.cut? Nesting.Delimiters.literals lineComment line with
  | none => exact Or.inr rfl
  | some p => exact Or.inl rfl

end ClassAtlas.Source
