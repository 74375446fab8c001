/-
What the state of a scan says about the text that was read.

A new scan that has read a text is inside a literal or it reads code. A literal it is inside of has marks of a kind that
the scan counts, and it is verbatim only if these are double marks, which follow an `@`. So nothing that belongs to a
literal is left when the literal ends. The level of a bracket that is counted is the number of times it was opened less
the number of times it was closed, outside literals; the levels of the others stay at zero (`get_levels_run`). The depth
adds these differences up, with one more inside a literal. A scan that counts no quotation marks therefore adds up what
its brackets open and close, whatever their kind (`atTop_run_iff`).
-/
import Mathlib.Algebra.BigOperators.Group.List.Basic
import Mathlib.Algebra.Ring.Int.Defs
import ClassAtlas.Proofs.Literal.Scan

namespace ClassAtlas.Nesting

/-! ## Views of a state -/

namespace State

/-- is the scan inside a literal between marks of this kind? -/
def within (s : State) (q : Quote) : Bool :=
  match s.mode with
  | .code => false
  | .literal q' _ _ => q' == q

/-- is the literal a verbatim one? -/
def verbatim (s : State) : Bool :=
  match s.mode with
  | .code => false
  | .literal _ verbatim _ => verbatim

/-- is the next character of the literal escaped? -/
def escaped (s : State) : Bool :=
  match s.mode with
  | .code => false
  | .literal _ _ escaped => escaped

end State

/-- how often a bracket is opened in a text, less how often it is closed -/
def balance (b : Bracket) (text : Text) : Int := text.count b.opening - text.count b.closing

/-- the characters that a new scan reads outside literals -/
def outside (counted : Delimiters) (text : Text) : Text :=
  (text.zipIdx.filter fun p => !(State.run counted {} (text.take p.2)).inQuotes).map Prod.fst

/-- what holds of the state of a scan that has read the text -/
structure Describes (counted : Delimiters) (text : Text) (s : State) : Prop where
  exclusive : ¬ (s.within .double = true ∧ s.within .single = true)
  kind : ∀ q, s.within q = true → .quote q ∈ counted
  verbatim : s.verbatim = true → s.within .double = true
  escaped : s.escaped = true → s.inQuotes = true
  /-- the literal began outside every other one, and it is verbatim if an `@` stands before its double mark -/
  begun : s.inQuotes = true → ∃ a q body, text = a ++ q.mark :: body ∧ (State.run counted {} a).inQuotes = false ∧
    s.within q = true ∧ s.verbatim = (q == .double && a.getLast? == some '@')
  uncounted : ∀ b, .bracket b ∉ counted → s.levels.get b = 0
  level : ∀ b, .bracket b ∈ counted → s.levels.get b = balance b (outside counted text)
  depth : s.depth = ((Bracket.all.filter fun b => .bracket b ∈ counted).map fun b =>
    balance b (outside counted text)).sum + if s.inQuotes then 1 else 0

variable {counted : Delimiters}

/-! ## One character -/

/-- what one character of code can do -/
theorem readCode_cases (counted : Delimiters) (c : Char) :
    (∃ q, .quote q ∈ counted ∧ c = q.mark) ∨
      (∃ b, .bracket b ∈ counted ∧ (c = b.opening ∨ c = b.closing)) ∨ Plain counted c := by
  by_cases hquote : ∃ q, .quote q ∈ counted ∧ c = q.mark
  · exact Or.inl hquote
  by_cases hbracket : ∃ b, .bracket b ∈ counted ∧ (c = b.opening ∨ c = b.closing)
  · exact Or.inr (Or.inl hbracket)
  refine Or.inr (Or.inr (plain_of_ne ?_ ?_))
  · intro q hq hc
    exact hquote ⟨q, hq, hc⟩
  · intro b hb
    exact ⟨fun hc => hbracket ⟨b, hb, Or.inl hc⟩, fun hc => hbracket ⟨b, hb, Or.inr hc⟩⟩

theorem balance_append (b : Bracket) (x y : Text) : balance b (x ++ y) = balance b x + balance b y := by
  simp only [balance, List.count_append]
  omega

theorem balance_of_ne {b : Bracket} {c : Char} (hopen : c ≠ b.opening) (hclose : c ≠ b.closing) : balance b [c] = 0 := by
  simp [balance, hopen, hclose]

theorem balance_mark (b : Bracket) (q : Quote) : balance b [q.mark] = 0 := by
  cases b <;> cases q <;> decide

theorem balance_opening (b b' : Bracket) : balance b [b'.opening] = if b = b' then 1 else 0 := by
  cases b <;> cases b' <;> decide

theorem balance_closing (b b' : Bracket) : balance b [b'.closing] = if b = b' then -1 else 0 := by
  cases b <;> cases b' <;> decide

/-- a character of code moves the level of a counted bracket that it opens or closes -/
theorem get_levels_step {s : State} (hs : s.mode = .code) (c : Char) (b : Bracket) :
    (s.step counted c).levels.get b = s.levels.get b + if .bracket b ∈ counted then balance b [c] else 0 := by
  rcases readCode_cases counted c with ⟨q, hq, rfl⟩ | ⟨b', hb', rfl | rfl⟩ | hplain
  · rw [(InLiteral.of_code hq hs).levels, balance_mark, ite_self, Int.add_zero]
  · rw [step_opening hb' hs, balance_opening, Levels.get_add]
    by_cases hb : b = b'
    · subst hb
      simp [hb']
    · simp [hb]
  · rw [step_closing hb' hs, balance_closing, Levels.get_add]
    by_cases hb : b = b'
    · subst hb
      simp [hb']
    · simp [hb]
  · rw [step_plain hplain hs]
    split
    · rename_i hb
      obtain ⟨hopen, hclose⟩ := hplain.ne.2 b hb
      rw [balance_of_ne hopen hclose, Int.add_zero]
    · rw [Int.add_zero]

/-! ## Levels -/

theorem outside_concat (counted : Delimiters) (text : Text) (c : Char) :
    outside counted (text ++ [c]) =
      outside counted text ++ if (State.run counted {} text).inQuotes then [] else [c] := by
  have hbefore : text.zipIdx.filter (fun p => !(State.run counted {} ((text ++ [c]).take p.2)).inQuotes) =
      text.zipIdx.filter fun p => !(State.run counted {} (text.take p.2)).inQuotes := by
    refine List.filter_congr fun p hp => ?_
    have hlt : p.2 < text.length := List.snd_lt_of_mem_zipIdx hp
    rw [List.take_append_of_le_length (Nat.le_of_lt hlt)]
  rw [outside, List.zipIdx_append, List.filter_append, hbefore, List.map_append, outside]
  cases h : (State.run counted {} text).inQuotes <;> simp [h]

/-- the level of a bracket is its balance outside literals if the bracket is counted, and zero otherwise -/
theorem get_levels_run (counted : Delimiters) (text : Text) (b : Bracket) :
    (State.run counted {} text).levels.get b =
      if .bracket b ∈ counted then balance b (outside counted text) else 0 := by
  induction text using List.reverseRecOn with
  | nil =>
    have hzero : ({} : State).levels.get b = 0 := by cases b <;> rfl
    rw [State.run_nil, hzero]
    split <;> rfl
  | append_singleton text c ih =>
    rw [State.run_append, State.run_cons, State.run_nil, outside_concat]
    cases hmode : (State.run counted {} text).mode with
    | code =>
      rw [get_levels_step hmode, ih, inQuotes_eq_false_iff.2 hmode, if_neg Bool.false_ne_true, balance_append]
      split <;> rfl
    | literal q verbatim escaped =>
      have hinside : (State.run counted {} text).inQuotes = true := (InLiteral.mk hmode rfl).inQuotes
      rw [step_literal hmode, ih, hinside, if_pos rfl, List.append_nil]

/-- a level is at most the length of the text, on either side of zero -/
theorem natAbs_get_levels_run_le (counted : Delimiters) (text : Text) (b : Bracket) :
    ((State.run counted {} text).levels.get b).natAbs ≤ text.length := by
  have houtside : (outside counted text).length ≤ text.length := by
    have hfilter := List.length_filter_le (fun p => !(State.run counted {} (text.take p.2)).inQuotes) text.zipIdx
    rwa [List.length_zipIdx, ← List.length_map (f := Prod.fst)] at hfilter
  have hcount : ∀ c, (outside counted text).count c ≤ text.length := fun c =>
    Nat.le_trans List.count_le_length houtside
  rw [get_levels_run]
  split
  · have hopened := hcount b.opening
    have hclosed := hcount b.closing
    rw [balance]
    omega
  · exact Nat.zero_le _

theorem total_eq_sum (l : Levels) : l.total = (Bracket.all.map l.get).sum := by
  simp only [Levels.total, Bracket.all, List.map_cons, List.map_nil, List.sum_cons, List.sum_nil, Levels.get]
  omega

theorem depth_run (counted : Delimiters) (text : Text) :
    (State.run counted {} text).depth =
      ((Bracket.all.filter fun b => .bracket b ∈ counted).map fun b => balance b (outside counted text)).sum +
        if (State.run counted {} text).inQuotes then 1 else 0 := by
  rw [State.depth, total_eq_sum, funext (get_levels_run counted text), List.sum_map_ite, List.sum_map_zero, add_zero]

/-! ## Literals -/

/-- the literal of a mode began where the scan read code, with a mark that is counted -/
def Begun (counted : Delimiters) (text : Text) : Mode → Prop
  | .code => True
  | .literal q verbatim _ => .quote q ∈ counted ∧ ∃ a body, text = a ++ q.mark :: body ∧
      (State.run counted {} a).mode = .code ∧ verbatim = (q == .double && a.getLast? == some '@')

/-- a literal that goes on began where it did before -/
theorem Begun.concat {text : Text} {q : Quote} {verbatim escaped : Bool}
    (h : Begun counted text (.literal q verbatim escaped)) (c : Char) (escaped' : Bool) :
    Begun counted (text ++ [c]) (.literal q verbatim escaped') := by
  obtain ⟨hq, a, body, htext, hcode, hverbatim⟩ := h
  exact ⟨hq, a, body ++ [c], by rw [htext, List.append_assoc, List.cons_append], hcode, hverbatim⟩

theorem Begun.advance {text : Text} {mode : Mode} (h : Begun counted text mode) (c : Char) :
    Begun counted (text ++ [c]) (mode.advance c) := by
  cases mode with
  | code => trivial
  | literal q verbatim escaped =>
    cases escaped with
    | true => exact h.concat c false
    | false =>
      rw [Mode.advance]
      split
      · trivial
      · exact h.concat c _

theorem begun_run (counted : Delimiters) (text : Text) : Begun counted text (State.run counted {} text).mode := by
  induction text using List.reverseRecOn with
  | nil => trivial
  | append_singleton text c ih =>
    rw [State.run_append, State.run_cons, State.run_nil]
    cases hmode : (State.run counted {} text).mode with
    | literal q verbatim escaped =>
      rw [step_literal hmode]
      exact ih.advance c
    | code =>
      rcases readCode_cases counted c with ⟨q, hq, rfl⟩ | ⟨b, hb, rfl | rfl⟩ | hplain
      · rw [(InLiteral.of_code hq hmode).mode, previous_run, Option.or_none]
        exact ⟨hq, text, [], rfl, hmode, rfl⟩
      · rw [step_opening hb hmode, hmode]
        trivial
      · rw [step_closing hb hmode, hmode]
        trivial
      · rw [step_plain hplain hmode, hmode]
        trivial

/-- a scan that counts no marks never is inside a literal -/
theorem inQuotes_run_eq_false (h : ∀ q, .quote q ∉ counted) (text : Text) :
    (State.run counted {} text).inQuotes = false := by
  have hbegun := begun_run counted text
  rw [inQuotes_eq_false_iff]
  cases hmode : (State.run counted {} text).mode with
  | code => rfl
  | literal q verbatim escaped =>
    rw [hmode] at hbegun
    exact absurd hbegun.1 (h q)

theorem outside_eq_self (h : ∀ q, .quote q ∉ counted) (text : Text) : outside counted text = text := by
  rw [outside, List.filter_eq_self.2, List.zipIdx_map_fst]
  intro p _
  rw [inQuotes_run_eq_false h, Bool.not_false]

/-! ## Scans that count brackets only -/

/-- such a scan is at the top level where its brackets are closed as often as they are opened -/
theorem atTop_run_iff (h : ∀ q, .quote q ∉ counted) (text : Text) :
    (State.run counted {} text).atTop = true ↔
      ((Bracket.all.filter fun b => .bracket b ∈ counted).map fun b => balance b text).sum = 0 := by
  rw [State.atTop, beq_iff_eq, depth_run, inQuotes_run_eq_false h, outside_eq_self h, if_neg Bool.false_ne_true,
    Int.add_zero]

theorem atTop_round (text : Text) :
    (State.run Delimiters.round {} text).atTop = true ↔ text.count '(' = text.count ')' := by
  have hkinds : (Bracket.all.filter fun b => .bracket b ∈ Delimiters.round) = [.round] := by decide
  rw [atTop_run_iff (fun q => by cases q <;> decide), hkinds]
  simp only [List.map_cons, List.map_nil, List.sum_cons, List.sum_nil, balance, Bracket.opening, Bracket.closing]
  omega

/-- how many angle and round brackets are opened -/
def opened (text : Text) : Nat := text.count '<' + text.count '('

/-- how many of these brackets are closed -/
def closed (text : Text) : Nat := text.count '>' + text.count ')'

theorem opened_append (a b : Text) : opened (a ++ b) = opened a + opened b := by
  simp only [opened, List.count_append]
  omega

theorem closed_append (a b : Text) : closed (a ++ b) = closed a + closed b := by
  simp only [closed, List.count_append]
  omega

theorem balanced_append {a b : Text} (ha : opened a = closed a) (hb : opened b = closed b) :
    opened (a ++ b) = closed (a ++ b) := by
  rw [opened_append, closed_append, ha, hb]

theorem atTop_grouping (text : Text) :
    (State.run Delimiters.grouping {} text).atTop = true ↔ opened text = closed text := by
  have hkinds : (Bracket.all.filter fun b => .bracket b ∈ Delimiters.grouping) = [.angle, .round] := by decide
  rw [atTop_run_iff (fun q => by cases q <;> decide), hkinds]
  simp only [List.map_cons, List.map_nil, List.sum_cons, List.sum_nil, balance, Bracket.opening, Bracket.closing, opened,
    closed]
  omega

/-! ## The whole state -/

theorem within_eq_true {s : State} {q : Quote} :
    s.within q = true ↔ ∃ verbatim escaped, s.mode = .literal q verbatim escaped := by
  unfold State.within
  cases s.mode <;> simp

/-- a state is in code or in a literal, which says what it is -/
theorem mode_of_inQuotes {s : State} (h : s.inQuotes = true) : ∃ q, s.mode = .literal q s.verbatim s.escaped := by
  unfold State.verbatim State.escaped
  cases hmode : s.mode with
  | code => simp [State.inQuotes, hmode] at h
  | literal q verbatim escaped => exact ⟨q, rfl⟩

/-- nothing is verbatim or escaped outside literals -/
theorem inQuotes_of_flag {s : State} (h : s.verbatim = true ∨ s.escaped = true) : s.inQuotes = true := by
  unfold State.verbatim State.escaped at h
  cases hmode : s.mode with
  | code => simp [hmode] at h
  | literal q verbatim escaped => exact (InLiteral.mk hmode rfl).inQuotes

theorem begun_of_inQuotes {text : Text} (h : (State.run counted {} text).inQuotes = true) :
    ∃ a q body, text = a ++ q.mark :: body ∧ (State.run counted {} a).inQuotes = false ∧
      (State.run counted {} text).within q = true ∧
      (State.run counted {} text).verbatim = (q == .double && a.getLast? == some '@') := by
  obtain ⟨q, hmode⟩ := mode_of_inQuotes h
  have hbegun := begun_run counted text
  rw [hmode] at hbegun
  obtain ⟨-, a, body, htext, hcode, hverbatim⟩ := hbegun
  exact ⟨a, q, body, htext, inQuotes_eq_false_iff.2 hcode, within_eq_true.2 ⟨_, _, hmode⟩, hverbatim⟩

/-- **A scan keeps count**, whatever text it has read and whatever it counts. -/
theorem describes_run (counted : Delimiters) (text : Text) : Describes counted text (State.run counted {} text) where
  exclusive := by
    intro ⟨hdouble, hsingle⟩
    obtain ⟨_, _, hmode⟩ := within_eq_true.1 hdouble
    obtain ⟨_, _, hmode'⟩ := within_eq_true.1 hsingle
    rw [hmode] at hmode'
    cases hmode'
  kind := by
    intro q hq
    obtain ⟨_, _, hmode⟩ := within_eq_true.1 hq
    have hbegun := begun_run counted text
    rw [hmode] at hbegun
    exact hbegun.1
  verbatim := by
    intro hverbatim
    obtain ⟨a, q, body, -, -, hq, hdouble⟩ := begun_of_inQuotes (inQuotes_of_flag (Or.inl hverbatim))
    rw [hverbatim] at hdouble
    rwa [← beq_iff_eq.1 (Bool.and_eq_true_iff.1 hdouble.symm).1]
  escaped := fun hescaped => inQuotes_of_flag (Or.inr hescaped)
  begun := begun_of_inQuotes
  uncounted := by
    intro b hb
    rw [get_levels_run, if_neg hb]
  level := by
    intro b hb
    rw [get_levels_run, if_pos hb]
  depth := depth_run counted text

end ClassAtlas.Nesting
