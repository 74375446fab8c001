/-
Well-nested text, and the bracket that closes it.

In a text that is well nested for a scan the counted brackets are paired, around such texts again, and the counted marks
stand around closed literals (`WellNested`). The scan adds up the levels of all kinds of bracket and keeps no stack. The
sum is enough here: it stays above its value at the start inside every bracket and every literal, and at the end it is
back (`WellNested.crossesWithin`). So what closes a bracket is the first closing one that the search meets at the top
level behind it (`offset?_closing`).
-/
import ClassAtlas.Proofs.Literal.Scan

namespace ClassAtlas.Nesting

/-- the characters that a delimiter is written with -/
def Delimiter.marks : Delimiter → List Char
  | .bracket b => [b.opening, b.closing]
  | .quote q => [q.mark]

/-- Counted brackets are paired, and counted marks belong to closed literals in which a backslash escapes. No `@` stands
right before a string literal. -/
inductive WellNested (counted : Delimiters) : Text → Prop where
  | nil : WellNested counted []
  | char {a : Text} {c : Char} : WellNested counted a → (∀ d ∈ counted, c ∉ d.marks) → WellNested counted (a ++ [c])
  | group {a inner : Text} {b : Bracket} : WellNested counted a → .bracket b ∈ counted → WellNested counted inner →
      WellNested counted (a ++ (b.opening :: inner ++ [b.closing]))
  | literal {a : Text} {l : Literal} : WellNested counted a → .quote l.quote ∈ counted →
      (l.quote = .double → a.getLast? ≠ some '@') → WellNested counted (a ++ l.text)

variable {counted : Delimiters} {a : Text}

theorem plain_of_not_mem_marks {c : Char} (h : ∀ d ∈ counted, c ∉ d.marks) : Plain counted c := by
  refine plain_of_ne (fun q hq => ?_) fun b hb => ?_
  · simpa [Delimiter.marks] using h _ hq
  · simpa [Delimiter.marks] using h _ hb

theorem opening_ne_closing (b b' : Bracket) : b.opening ≠ b'.closing := by
  cases b <;> cases b' <;> decide

theorem opening_ne_at (b : Bracket) : some b.opening ≠ some '@' := by
  cases b <;> decide

theorem mark_ne_closing (q : Quote) (b : Bracket) : q.mark ≠ b.closing := by
  cases q <;> cases b <;> decide

/-- a scan of code that goes in at level 0 or deeper meets no counted closing bracket at the top level -/
theorem WellNested.crossesWithin (h : WellNested counted a) {s : State} (hs : s.mode = .code)
    (hat : s.previous ≠ some '@') (h0 : 0 ≤ s.levels.total) :
    CrossesWithin counted (fun c => ∀ b, .bracket b ∈ counted → c ≠ b.closing) s a := by
  induction h generalizing s with
  | nil => exact crossesWithin_nil hs
  | char _ hc ih =>
    have hfirst := ih hs hat h0
    have hplain := plain_of_not_mem_marks hc
    exact hfirst.append (crossesWithin_char hplain hfirst.code fun b hb => (hplain.ne.2 b hb).2)
  | @group a inner b _ hb _ ih ihinner =>
    have hfirst := ih hs hat h0
    rw [← hfirst.levels] at h0
    have hopen := step_opening hb hfirst.code
    -- the character before what the brackets hold is the opening one, and no `@`
    have hinner := ihinner (s := (s.run counted a).step counted b.opening) (by rw [hopen]; exact hfirst.code)
      (by rw [hopen]; exact opening_ne_at b) (by rw [hopen, Levels.total_add]; omega)
    exact hfirst.append (crossesWithin_group hb hfirst.code h0 (fun b' _ => opening_ne_closing b b') hinner)
  | @literal a l _ hq hregular ih =>
    have hfirst := ih hs hat h0
    rw [← hfirst.levels] at h0
    have hprevious : l.quote = .double → (s.run counted a).previous ≠ some '@' := by
      intro hdouble
      exact previous_run_ne hat (hregular hdouble)
    exact hfirst.append
      (l.crossesWithin hq (fun b _ => mark_ne_closing l.quote b) hfirst.code h0 hprevious)

/-- **The matching bracket.** The first closing bracket that a search from right behind an opening one finds at the top
level is the one that closes it, whatever stands before them and behind them. -/
theorem offset?_closing {b : Bracket} (hb : .bracket b ∈ counted) {inner : Text} (h : WellNested counted inner)
    (before rest : Text) :
    offset? counted [b.closing] (before ++ b.opening :: inner ++ b.closing :: rest) (Text.byteLength before + 1) =
      some (Text.byteLength before + 1 + Text.byteLength inner) := by
  have hcross : Crosses counted (· ≠ b.closing) {} inner :=
    (h.crossesWithin (s := {}) rfl (by decide) (by decide)).crosses.mono fun _ hc => hc b hb
  have htext : before ++ b.opening :: inner ++ b.closing :: rest =
      (before ++ [b.opening]) ++ (inner ++ b.closing :: rest) := by simp
  have hstart : Text.byteLength before + 1 = Text.byteLength (before ++ [b.opening]) := by
    rw [Text.byteLength_append]
    cases b <;> rfl
  rw [htext, hstart, offset?_append, hcross.cut?_append_cons, Option.map_some]

/-- brackets and marks in literals, one of them escaped, and brackets of two kinds -/
theorem offset?_closing_literals :
    let inner : Text := ['a', '[', '"', 'é', ')', '\\', '"', '"', ']', '(', '\'', '(', '\'', ')']
    WellNested Delimiters.all inner ∧
      offset? Delimiters.all [')'] ('f' :: '(' :: inner ++ [')', ')']) 2 = some 17 := by
  intro inner
  have hboxed : WellNested Delimiters.all ['"', 'é', ')', '\\', '"', '"'] :=
    .literal (l := ⟨.double, ['é', ')', '\\', '"'], by decide⟩) .nil (by decide) (by decide)
  have hround : WellNested Delimiters.all ['\'', '(', '\''] :=
    .literal (l := ⟨.single, ['('], by decide⟩) .nil (by decide) (by decide)
  have hinner : WellNested Delimiters.all inner :=
    .group (b := .round) (.group (b := .box) (.char (c := 'a') .nil (by decide)) (by decide) hboxed) (by decide) hround
  exact ⟨hinner, offset?_closing (b := .round) (by decide) hinner ['f'] [')']⟩

end ClassAtlas.Nesting
