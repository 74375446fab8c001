/-
Literals, and that a scan crosses them.

Inside a literal nothing counts but its end (`InLiteral`). A closed literal in which a backslash escapes is a mark, a
body and the same mark again; in the body no mark stands that is not escaped (`isBody`). A scan that counts its marks
comes out of such a literal as it went in and meets nothing but the first mark at the top level, and that only if it
started there, unless an `@` stands before it (`Literal.crossesWithin`).
-/
import ClassAtlas.Proofs.Search

namespace ClassAtlas.Nesting

variable {counted : Delimiters} {s : State} {levels : Levels} {q : Quote} {verbatim : Bool}

/-! ## Inside a literal -/

/-- the scan stands in a literal and has not counted a bracket since -/
structure InLiteral (q : Quote) (levels : Levels) (verbatim escaped : Bool) (s : State) : Prop where
  mode : s.mode = .literal q verbatim escaped
  levels : s.levels = levels

theorem step_literal {escaped : Bool} (hs : s.mode = .literal q verbatim escaped) (c : Char) :
    s.step counted c = { s with mode := s.mode.advance c, previous := some c } := by
  unfold State.step
  rw [hs]

theorem readCode_mark (hq : .quote q ∈ counted) (s : State) : s.readCode counted q.mark = s.openLiteral q := by
  cases q <;> simp [State.readCode, Quote.ofChar?, Quote.all, Quote.mark, hq]

/-- a counted mark opens a literal -/
theorem InLiteral.of_code (hq : .quote q ∈ counted) (hs : s.mode = .code) :
    InLiteral q s.levels (q == .double && s.previous == some '@') false (s.step counted q.mark) := by
  simp only [State.step, hs, readCode_mark hq]
  exact ⟨rfl, rfl⟩

namespace InLiteral

theorem inQuotes {escaped : Bool} (h : InLiteral q levels verbatim escaped s) : s.inQuotes = true := by
  rw [State.inQuotes, h.mode]
  rfl

/-- a literal lies one level below the code in which it opened -/
theorem not_atTop {escaped : Bool} (h : InLiteral q levels verbatim escaped s) (h0 : 0 ≤ levels.total) :
    s.atTop = false := by
  rw [State.atTop, State.depth, h.inQuotes, h.levels, if_pos rfl, beq_eq_false_iff_ne]
  omega

/-- a mark that is not escaped ends the literal -/
theorem close (counted : Delimiters) (h : InLiteral q levels verbatim false s) :
    (s.step counted q.mark).mode = .code ∧ (s.step counted q.mark).levels = levels := by
  rw [step_literal h.mode, h.mode]
  exact ⟨if_pos rfl, h.levels⟩

/-- an escaped character does not, whatever it is -/
theorem step_escaped (counted : Delimiters) (h : InLiteral q levels verbatim true s) (c : Char) :
    InLiteral q levels verbatim false (s.step counted c) := by
  rw [step_literal h.mode, h.mode]
  exact ⟨rfl, h.levels⟩

theorem step_inside (counted : Delimiters) {escaped : Bool} (h : InLiteral q levels verbatim escaped s) {c : Char}
    (hc : c ≠ q.mark) : InLiteral q levels verbatim (c == '\\' && !verbatim && !escaped) (s.step counted c) := by
  cases escaped with
  | true =>
    have hstep := h.step_escaped counted c
    rwa [Bool.not_true, Bool.and_false]
  | false =>
    rw [step_literal h.mode, h.mode, Mode.advance, if_neg hc, Bool.not_false, Bool.and_true]
    exact ⟨rfl, h.levels⟩

end InLiteral

/-- only a mark leads out of a literal -/
theorem mode_of_step {c : Char} (hc : ∀ q : Quote, c ≠ q.mark) (h : (s.step counted c).mode = .code) :
    s.mode = .code := by
  cases hmode : s.mode with
  | code => rfl
  | literal q verbatim escaped =>
    have hinside := (InLiteral.mk hmode rfl).step_inside counted (hc q)
    rw [hinside.mode] at h
    contradiction

/-! ## Closed literals -/

/-- may the text stand between two of these marks? A backslash takes the next character along. -/
def isBody (q : Quote) : Text → Bool
  | [] => true
  | ['\\'] => false
  | '\\' :: _ :: rest => isBody q rest
  | c :: rest => c != q.mark && isBody q rest

/-- a closed literal in which a backslash escapes -/
structure Literal where
  quote : Quote
  body : Text
  closed : isBody quote body = true

def Literal.text (l : Literal) : Text := l.quote.mark :: l.body ++ [l.quote.mark]

/-- the last character that was read is a mark -/
theorem Literal.previous_run (l : Literal) (s : State) : (s.run counted l.text).previous = some l.quote.mark := by
  rw [Literal.text, State.run_append]
  rfl

theorem backslash_ne_mark (q : Quote) : '\\' ≠ q.mark := by
  cases q <;> decide

/-- up to every place of a body the scan stays in the literal, and the end of the body is not escaped -/
theorem InLiteral.run_body (counted : Delimiters) {body : Text} (hbody : isBody q body = true)
    (h : InLiteral q levels false false s) {x y : Text} (hxy : body = x ++ y) :
    ∃ escaped, InLiteral q levels false escaped (s.run counted x) ∧ (y = [] → escaped = false) := by
  fun_induction isBody q body generalizing s x with
  | case1 =>
    obtain ⟨rfl, rfl⟩ := List.append_eq_nil_iff.1 hxy.symm
    exact ⟨false, h, fun _ => rfl⟩
  | case2 => contradiction
  | case3 c rest ih =>
    have hslash : InLiteral q levels false true (s.step counted '\\') := h.step_inside counted (backslash_ne_mark q)
    match x, hxy with
    | [], hxy => exact ⟨false, h, fun _ => rfl⟩
    | [d], hxy =>
      obtain ⟨rfl, rfl⟩ := List.cons_eq_cons.1 hxy
      exact ⟨true, hslash, fun hy => absurd hy (List.cons_ne_nil c rest)⟩
    | d :: e :: x, hxy =>
      simp only [List.cons_append, List.cons.injEq] at hxy
      obtain ⟨rfl, rfl, htail⟩ := hxy
      exact ih hbody (hslash.step_escaped counted c) htail
  | case4 c rest hlone hescape ih =>
    obtain ⟨hmark, hrest⟩ := Bool.and_eq_true_iff.1 hbody
    have hc : c ≠ '\\' := by
      rintro rfl
      cases rest with
      | nil => exact hlone rfl rfl
      | cons d rest => exact hescape d rest rfl rfl
    have hstep := h.step_inside counted (bne_iff_ne.1 hmark)
    have hplain : (c == '\\' && !false && !false) = false := by simp [hc]
    rw [hplain] at hstep
    match x, hxy with
    | [], hxy => exact ⟨false, h, fun _ => rfl⟩
    | d :: x, hxy =>
      obtain ⟨rfl, htail⟩ := List.cons_eq_cons.1 hxy
      exact ih hrest hstep htail

theorem Literal.crossesWithin (l : Literal) {p : Char → Prop} (hq : .quote l.quote ∈ counted) (hp : p l.quote.mark)
    (hs : s.mode = .code) (h0 : 0 ≤ s.levels.total) (hat : l.quote = .double → s.previous ≠ some '@') :
    CrossesWithin counted p s l.text := by
  have hregular : (l.quote == .double && s.previous == some '@') = false := by
    cases hquote : l.quote with
    | single => rfl
    | double => simpa using hat hquote
  have hopen := InLiteral.of_code hq hs
  rw [hregular] at hopen
  have htext : l.text = l.quote.mark :: (l.body ++ [l.quote.mark]) := rfl
  obtain ⟨escaped, hend, hclosed⟩ := hopen.run_body counted l.closed (List.append_nil l.body).symm
  rw [hclosed rfl] at hend
  obtain ⟨hcode, hlevels⟩ := hend.close counted
  refine ⟨fun x c y hsplit htop => ?_, ?_, ?_⟩
  · rw [htext] at hsplit
    cases x with
    | nil =>
      obtain ⟨rfl, -⟩ := List.cons_eq_cons.1 hsplit
      rw [State.run_nil, atTop_code hs, beq_iff_eq] at htop
      exact ⟨htop, hp⟩
    | cons d x =>
      rw [List.cons_append, List.cons.injEq] at hsplit
      obtain ⟨rfl, htail⟩ := hsplit
      -- the place lies behind the first mark and before the end of the last one
      obtain ⟨z, hbody⟩ : x <+: l.body := by
        refine List.prefix_of_prefix_length_le ⟨c :: y, htail.symm⟩ (List.prefix_append _ _) ?_
        have hlength := congrArg List.length htail
        simp only [List.length_append, List.length_cons, List.length_nil] at hlength
        omega
      obtain ⟨escaped, hinside, -⟩ := hopen.run_body counted l.closed hbody.symm
      rw [State.run_cons, hinside.not_atTop h0] at htop
      contradiction
  · rw [htext, State.run_cons, State.run_append]
    exact hcode
  · rw [htext, State.run_cons, State.run_append]
    exact hlevels

end ClassAtlas.Nesting
