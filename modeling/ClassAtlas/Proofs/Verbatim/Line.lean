/-
What comes behind a verbatim literal on a line.

If no mark of the literal is escaped, it is code like any other: a line comment or a terminator behind it is seen. If
one is, the rest of the line is taken for a part of a literal. The scan that breaks statements starts anew at a line
feed and reads the last line of the body as code, so for it the body must also stand on one line
(`verbatimLiteral_closes_iff`).
-/
import ClassAtlas.Proofs.LineCode
import ClassAtlas.Proofs.Verbatim.Scan

namespace ClassAtlas.Source

open Nesting (Delimiters NoMarkEscaped OutsideLiterals State verbatimLiteral)

/-! ## The scan that breaks statements -/

/-- where the scan stands behind a literal whose body has a line feed: it read the last line of the body as code -/
theorem Breaker.inQuotes_feed {body : Text} (h : '\n' ∈ body) (before : Text) :
    (Breaker.run {} (before ++ verbatimLiteral body)).state.inQuotes = true := by
  obtain ⟨above, last, rfl, hlast⟩ := Text.exists_last h
  have hfeed : '\n' ∉ Nesting.doubled last ++ ['"'] := by
    intro hm
    rcases List.mem_append.1 hm with hm | hm
    · exact (Nesting.mem_doubled hm).elim (by decide) hlast
    · exact absurd hm (by decide)
  have htext : before ++ verbatimLiteral (above ++ '\n' :: last) =
      (before ++ '@' :: '"' :: Nesting.doubled above) ++ ['\n'] ++ (Nesting.doubled last ++ ['"']) := by
    have hmiddle : Nesting.doubled ('\n' :: last) = '\n' :: Nesting.doubled last := rfl
    rw [verbatimLiteral, Nesting.doubled_append, hmiddle]
    simp
  have hanew : ∀ b : Breaker, (b.run ['\n']).state = {} := fun b => rfl
  rw [htext, Breaker.run_append, Breaker.state_run hfeed, Breaker.run_append, hanew]
  exact Nesting.Strayed.inQuotes_run (by decide) (Or.inl rfl) last

theorem Breaker.inQuotes_verbatimLiteral_iff {before : Text} (h : (Breaker.run {} before).state.inQuotes = false)
    (body : Text) : (Breaker.run {} (before ++ verbatimLiteral body)).state.inQuotes = false ↔
      '\n' ∉ body ∧ NoMarkEscaped body := by
  by_cases hfeed : '\n' ∈ body
  · rw [Breaker.inQuotes_feed hfeed before]
    simp [hfeed]
  · have hliteral : '\n' ∉ verbatimLiteral body := by
      intro hm
      simp only [verbatimLiteral, List.mem_cons, List.mem_append, Char.reduceEq, List.not_mem_nil, or_false,
        false_or] at hm
      exact (Nesting.mem_doubled hm).elim (by decide) hfeed
    rw [Breaker.run_append, Breaker.state_run hliteral,
      Nesting.inQuotes_verbatimLiteral_iff (by decide) (Nesting.inQuotes_eq_false_iff.1 h)]
    simp [hfeed]

/-! ## Behind a verbatim literal -/

theorem isCode_verbatimLiteral {before body : Text} (ho : OutsideLiterals before)
    (hu : removeLineComment before = before) (h : NoMarkEscaped body) : IsCode (before ++ verbatimLiteral body) := by
  have hmode := Nesting.inQuotes_eq_false_iff.1 ho
  have hlevels := Nesting.levels_run_literals {} before
  have hdouble : .quote .double ∈ Delimiters.literals := by decide
  have hskips := Nesting.skips_verbatimLiteral hdouble hmode h
  refine ⟨?_, ?_, ?_⟩
  · rw [OutsideLiterals, State.run_append]
    exact Nesting.inQuotes_eq_false_iff.2 hskips.code
  · have hmark : ∀ c rest, c = '@' ∨ c = '"' → lineComment.isPrefixOf (c :: rest) = false := by
      intro c rest hc
      rcases hc with rfl | rfl <;> rfl
    have hbehind := Nesting.cutFrom_marks (b := []) hlevels hskips.marks hmark
    rw [List.append_nil] at hbehind
    rw [removeLineComment_eq_self_iff, cutFrom_lineComment hu (Or.inl (by simp [verbatimLiteral])), hbehind]
    rfl
  · rw [verbatimLiteral, ← List.cons_append, ← List.cons_append, ← List.append_assoc, List.getLast?_concat]
    decide

theorem removeLineComment_verbatimLiteral_iff {before body : Text} (ho : OutsideLiterals before)
    (hu : removeLineComment before = before) (comment : Text) :
    removeLineComment (before ++ verbatimLiteral body ++ lineComment ++ comment) = before ++ verbatimLiteral body ↔
      NoMarkEscaped body := by
  refine ⟨fun hcut => ?_, fun h => (isCode_verbatimLiteral ho hu h).removeLineComment_comment comment⟩
  have hmode := Nesting.inQuotes_eq_false_iff.1 ho
  have hdouble : .quote .double ∈ Delimiters.literals := by decide
  rw [← Nesting.inQuotes_verbatimLiteral_iff hdouble hmode, ← State.run_append]
  -- the search cut here, so here it stood at the top level
  rw [removeLineComment_eq] at hcut
  cases hplace : Nesting.cutFrom Delimiters.literals (lineComment.isPrefixOf ·) {}
      (before ++ verbatimLiteral body ++ lineComment ++ comment) with
  | none =>
    rw [hplace] at hcut
    simp [lineComment] at hcut
  | some p =>
    rw [hplace] at hcut
    obtain ⟨hp, -⟩ := Nesting.isPlace_of_cutFrom hplace
    have hfirst : p.1 = before ++ verbatimLiteral body := hcut
    rw [hfirst] at hp
    exact Nesting.outsideLiterals_iff.2 hp.atTop

theorem breakStatements_verbatimLiteral_iff {before : Text} (h : (Breaker.run {} before).state.inQuotes = false)
    (body : Text) {c : Char} (hc : isTerminator c = true) :
    breakStatements (before ++ verbatimLiteral body ++ [c]) =
        breakStatements (before ++ verbatimLiteral body) ++ [c, '\n'] ↔ '\n' ∉ body ∧ NoMarkEscaped body := by
  have hfeed : c ≠ '\n' := by
    rcases isTerminator_cases hc with rfl | rfl | rfl <;> decide
  rw [← Breaker.inQuotes_verbatimLiteral_iff h, breakStatements_concat _ hfeed, hc, Bool.and_true,
    Nesting.atTop_eq_not_inQuotes (Breaker.levels_run _)]
  cases (Breaker.run {} (before ++ verbatimLiteral body)).state.inQuotes <;> simp

/-- **Verbatim literals are skipped exactly if none of their marks is escaped.** Then a scan is at the top level behind
the literal as before it, a line comment behind it is cut off, and a terminator behind it ends a statement; for
statements, the body has to stand on one line. -/
theorem verbatimLiteral_closes_iff (body : Text) :
    (∀ (counted : Delimiters) (s : State), .quote .double ∈ counted → s.inQuotes = false → s.atTop = true →
      ((s.run counted (verbatimLiteral body)).inQuotes = false ∧ (s.run counted (verbatimLiteral body)).atTop = true ∧
        (s.run counted (verbatimLiteral body)).levels = s.levels ↔ NoMarkEscaped body)) ∧
    (∀ before comment, OutsideLiterals before → removeLineComment before = before →
      (removeLineComment (before ++ verbatimLiteral body ++ lineComment ++ comment) = before ++ verbatimLiteral body ↔
        NoMarkEscaped body)) ∧
    (∀ before c, (Breaker.run {} before).state.inQuotes = false → isTerminator c = true →
      (breakStatements (before ++ verbatimLiteral body ++ [c]) =
        breakStatements (before ++ verbatimLiteral body) ++ [c, '\n'] ↔ '\n' ∉ body ∧ NoMarkEscaped body)) ∧
    (NoMarkEscaped body → ∀ before, OutsideLiterals before → removeLineComment before = before →
      ∀ (f g : SourceLines) (above below : List Text),
        (∀ comment, BlockFree (before ++ verbatimLiteral body ++ lineComment ++ comment) →
          f.lines = above ++ (before ++ verbatimLiteral body ++ lineComment ++ comment) :: below →
          g.lines = above ++ (before ++ verbatimLiteral body) :: below →
          canonicalLines f.text = canonicalLines g.text) ∧
        (∀ c rest, isTerminator c = true → BlockFree (before ++ verbatimLiteral body ++ c :: rest) →
          f.lines = above ++ (before ++ verbatimLiteral body ++ c :: rest) :: below →
          g.lines = above ++ (before ++ verbatimLiteral body ++ [c]) :: rest :: below →
          canonicalLines f.text = canonicalLines g.text)) := by
  refine ⟨fun counted s hd hs htop => ?_, fun before comment ho hu => ?_, fun before c h hc => ?_,
    fun h before ho hu f g above below => ⟨fun comment hb hf hg => ?_, fun c rest hc hb hf hg => ?_⟩⟩
  · have hmode := Nesting.inQuotes_eq_false_iff.1 hs
    refine ⟨fun hafter => (Nesting.inQuotes_verbatimLiteral_iff hd hmode body).1 hafter.1, fun h => ?_⟩
    obtain ⟨-, hcode, hlevels⟩ := Nesting.skips_verbatimLiteral hd hmode h
    rw [Nesting.atTop_code hmode] at htop
    rw [Nesting.inQuotes_eq_false_iff, Nesting.atTop_code hcode, hlevels]
    exact ⟨hcode, htop, rfl⟩
  · exact removeLineComment_verbatimLiteral_iff ho hu comment
  · exact breakStatements_verbatimLiteral_iff h body hc
  · have hcode := isCode_verbatimLiteral ho hu h
    rw [canonicalLines_text, canonicalLines_text, hf, hg, List.flatMap_append, List.flatMap_append, List.flatMap_cons,
      List.flatMap_cons, canonicalLine_comment hcode hb]
  · have hcode := isCode_verbatimLiteral ho hu h
    rw [canonicalLines_text, canonicalLines_text, hf, hg, List.flatMap_append, List.flatMap_append, List.flatMap_cons,
      List.flatMap_cons, List.flatMap_cons, canonicalLine_terminator hcode hc hb, List.append_assoc]

/-- `x=@"""\\";y`, where two backslashes stand behind the pair -/
theorem verbatimLiteral_closes_even :
    let body : Text := ['"', '\\', '\\']
    let f : SourceLines := ⟨[], some ⟨['x', '='] ++ verbatimLiteral body ++ [';', 'y'], by decide⟩⟩
    let g : SourceLines :=
      ⟨[(⟨['x', '='] ++ verbatimLiteral body ++ [';'], by decide⟩, .feed)], some ⟨['y'], by decide⟩⟩
    NoMarkEscaped body ∧ (State.run Delimiters.all {} (verbatimLiteral body)).atTop = true ∧
      removeLineComment (['x', '='] ++ verbatimLiteral body ++ lineComment ++ [';']) =
        ['x', '='] ++ verbatimLiteral body ∧
      breakStatements (['x', '='] ++ verbatimLiteral body ++ [';']) =
        breakStatements (['x', '='] ++ verbatimLiteral body) ++ [';', '\n'] ∧
      canonicalLines f.text = canonicalLines g.text := by
  intro body f g
  have h : NoMarkEscaped body := by decide
  obtain ⟨hscan, hcomment, hbreak, hsource⟩ := verbatimLiteral_closes_iff body
  have ho : OutsideLiterals ['x', '='] := by decide
  have hu : removeLineComment ['x', '='] = ['x', '='] := by decide
  refine ⟨h, ?_, ?_, ?_, ?_⟩
  · exact ((hscan Delimiters.all {} (by decide) rfl rfl).2 h).2.1
  · exact (hcomment ['x', '='] [';'] ho hu).2 h
  · exact (hbreak ['x', '='] ';' rfl rfl).2 ⟨by decide, h⟩
  · exact (hsource h ['x', '='] ho hu f g [] []).2 ';' ['y'] rfl (BlockFree.of_not_mem (by decide)) rfl rfl

/-- in `@"""\"` the mark at the end is taken for an escaped one, and so a comment behind it is not seen -/
theorem verbatimLiteral_left_open :
    ¬ ∀ body : Text, (State.run Delimiters.literals {} (verbatimLiteral body)).inQuotes = false ∧
      removeLineComment (verbatimLiteral body ++ lineComment) = verbatimLiteral body := by
  intro h
  have hbody := h ['"', '\\']
  exact absurd hbody (by decide)

end ClassAtlas.Source
