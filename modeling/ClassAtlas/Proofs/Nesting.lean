/-
Scanning well-nested text.

A scan `Crosses` a text if all that it meets at the top level has a property `p` and it leaves the text in code, at the
levels at which it came. So a search for something that no character with `p` starts passes over the whole text
(`cutFrom_append`), and so does a split (`piecesFrom_append`).

A text is `Shielded` for a scan if its counted brackets are paired and what stands outside them has `p`. A scan that
enters such a text in code crosses it (`Shielded.passable`), because inside the brackets it is never at the top.
-/
import Mathlib.Tactic.Common
import ClassAtlas.Nesting.Search
import ClassAtlas.Proofs.Text

namespace ClassAtlas.Nesting

/-! ## One character -/

/-- a character that a scan does not count -/
def Plain (counted : Delimiters) (c : Char) : Prop := ∀ s : State, s.readCode counted c = s

theorem plain_of_ne {counted : Delimiters} {c : Char} (hq : ∀ q, .quote q ∈ counted → c ≠ q.mark)
    (hb : ∀ b, .bracket b ∈ counted → c ≠ b.opening ∧ c ≠ b.closing) : Plain counted c := by
  intro s
  unfold State.readCode
  split
  · rename_i q h
    have hmark : q.mark = c := by simpa using List.find?_some h
    have hn : ¬ counted.contains (.quote q) = true := fun hc => hq q (by simpa using hc) hmark.symm
    rw [if_neg hn]
  · rename_i b _ h
    have hopen : b.opening = c := by simpa using List.find?_some h
    have hn : ¬ counted.contains (.bracket b) = true := fun hc => (hb b (by simpa using hc)).1 hopen.symm
    rw [if_neg hn]
  · rename_i b _ _ h
    have hclose : b.closing = c := by simpa using List.find?_some h
    have hn : ¬ counted.contains (.bracket b) = true := fun hc => (hb b (by simpa using hc)).2 hclose.symm
    rw [if_neg hn]
  · rfl

/-- a counted delimiter changes the state -/
theorem Plain.ne {counted : Delimiters} {c : Char} (h : Plain counted c) :
    (∀ q, .quote q ∈ counted → c ≠ q.mark) ∧ ∀ b, .bracket b ∈ counted → c ≠ b.opening ∧ c ≠ b.closing := by
  refine ⟨?_, fun b hb => ⟨?_, ?_⟩⟩
  · rintro q hq rfl
    have hmode := congrArg State.mode (h {})
    cases q <;> simp [State.readCode, Quote.ofChar?, Quote.all, Quote.mark, State.openLiteral, hq] at hmode
  · rintro rfl
    have hlevels := congrArg State.levels (h {})
    cases b <;> simp [State.readCode, Quote.ofChar?, Quote.all, Quote.mark, Bracket.ofOpening?, Bracket.all,
      Bracket.opening, Levels.add, hb] at hlevels
  · rintro rfl
    have hlevels := congrArg State.levels (h {})
    cases b <;> simp [State.readCode, Quote.ofChar?, Quote.all, Quote.mark, Bracket.ofOpening?, Bracket.ofClosing?,
      Bracket.all, Bracket.opening, Bracket.closing, Levels.add, hb] at hlevels

theorem Plain.mono {counted fewer : Delimiters} {c : Char} (h : Plain counted c) (hsub : fewer ⊆ counted) :
    Plain fewer c :=
  plain_of_ne (fun q hq => h.ne.1 q (hsub hq)) fun b hb => h.ne.2 b (hsub hb)

theorem Delimiters.subset_all (counted : Delimiters) : counted ⊆ Delimiters.all := by
  intro d _
  cases d with
  | bracket b => cases b <;> decide
  | quote q => cases q <;> decide

/-- the two brackets of a kind that is not counted -/
theorem plain_bracket {counted : Delimiters} {b : Bracket} (hb : .bracket b ∉ counted) :
    Plain counted b.opening ∧ Plain counted b.closing := by
  constructor
  · refine plain_of_ne (fun q _ => ?_) fun b' hb' => ?_
    · cases b <;> cases q <;> decide
    · have hne : b' ≠ b := fun he => hb (he ▸ hb')
      revert hne
      cases b <;> cases b' <;> decide
  · refine plain_of_ne (fun q _ => ?_) fun b' hb' => ?_
    · cases b <;> cases q <;> decide
    · have hne : b' ≠ b := fun he => hb (he ▸ hb')
      revert hne
      cases b <;> cases b' <;> decide

theorem plain_of_isBlank (counted : Delimiters) {c : Char} (h : Text.isBlank c = true) : Plain counted c := by
  refine plain_of_ne (fun q _ => ?_) fun b _ => ⟨?_, ?_⟩
  · rintro rfl
    cases q <;> exact absurd h (by decide)
  · rintro rfl
    cases b <;> exact absurd h (by decide)
  · rintro rfl
    cases b <;> exact absurd h (by decide)

theorem plain_comma (counted : Delimiters) : Plain counted ',' :=
  plain_of_ne (fun q _ => by cases q <;> decide) fun b _ => by cases b <;> decide

theorem step_plain {counted : Delimiters} {c : Char} (hc : Plain counted c) {s : State} (hs : s.mode = .code) :
    s.step counted c = { s with previous := some c } := by
  simp only [State.step, hs, hc s]

theorem step_opening {counted : Delimiters} {b : Bracket} (hb : .bracket b ∈ counted) {s : State}
    (hs : s.mode = .code) :
    s.step counted b.opening = { s with levels := s.levels.add b 1, previous := some b.opening } := by
  have hread : s.readCode counted b.opening = { s with levels := s.levels.add b 1 } := by
    cases b <;> simp [State.readCode, Quote.ofChar?, Quote.all, Quote.mark, Bracket.ofOpening?, Bracket.all,
      Bracket.opening, hb]
  simp only [State.step, hs, hread]

theorem readCode_closing {counted : Delimiters} {b : Bracket} (hb : .bracket b ∈ counted) (s : State) :
    s.readCode counted b.closing = { s with levels := s.levels.add b (-1) } := by
  cases b <;> simp [State.readCode, Quote.ofChar?, Quote.all, Quote.mark, Bracket.ofOpening?, Bracket.ofClosing?,
    Bracket.all, Bracket.opening, Bracket.closing, hb]

theorem step_closing {counted : Delimiters} {b : Bracket} (hb : .bracket b ∈ counted) {s : State}
    (hs : s.mode = .code) :
    s.step counted b.closing = { s with levels := s.levels.add b (-1), previous := some b.closing } := by
  simp only [State.step, hs, readCode_closing hb]

theorem add_add_neg (l : Levels) (b : Bracket) : (l.add b 1).add b (-1) = l := by
  cases b <;> simp only [Levels.add, Int.add_neg_cancel_right]

theorem atTop_code {s : State} (hs : s.mode = .code) : s.atTop = (s.levels.total == 0) := by
  simp [State.atTop, State.depth, State.inQuotes, hs]

/-! ## Text that a scan crosses -/

/-- what a scan from this state meets at the top level has the property, and the scan comes out in code at the levels at
which it went in -/
structure Crosses (counted : Delimiters) (p : Char → Prop) (s : State) (a : Text) : Prop where
  top : ∀ x c y, a = x ++ c :: y → (s.run counted x).atTop = true → p c
  code : (s.run counted a).mode = .code
  levels : (s.run counted a).levels = s.levels

/-- a scan that reads code at the top level crosses the text -/
def Passable (counted : Delimiters) (p : Char → Prop) (a : Text) : Prop :=
  ∀ s : State, s.mode = .code → s.levels.total = 0 → Crosses counted p s a

theorem foldr_map_cons (a : Text) (o : Option (Text × Text)) :
    a.foldr (fun c o => o.map fun q => (c :: q.1, q.2)) o = o.map fun q => (a ++ q.1, q.2) := by
  induction a with
  | nil => simp
  | cons c a ih =>
    rw [List.foldr_cons, ih, Option.map_map]
    rfl

section Read

variable {counted : Delimiters} {s : State} {a : Text}

/-- a function that reads one character at each place of a text reads the whole text that way -/
theorem foldr_read {β : Type} {read : State → Text → β} {push : Char → β → β} {rest : Text}
    (h : ∀ x c y, a = x ++ c :: y →
      read (s.run counted x) (c :: (y ++ rest)) = push c (read ((s.run counted x).step counted c) (y ++ rest))) :
    read s (a ++ rest) = a.foldr push (read (s.run counted a) rest) := by
  induction a generalizing s with
  | nil => rfl
  | cons c a ih =>
    have hhere := h [] c a rfl
    have hrest := ih (s := s.step counted c) fun x d y he => h (c :: x) d y (congrArg (c :: ·) he)
    rw [State.run_nil] at hhere
    rw [List.cons_append, hhere, hrest]
    rfl

/-- a search passes over a text in which the test fails at the top level -/
theorem cutFrom_append_of_not_test {test : Text → Bool} {rest : Text}
    (h : ∀ x c y, a = x ++ c :: y → (s.run counted x).atTop = true → test (c :: (y ++ rest)) = false) :
    cutFrom counted test s (a ++ rest) =
      (cutFrom counted test (s.run counted a) rest).map fun q => (a ++ q.1, q.2) := by
  rw [← foldr_map_cons]
  refine foldr_read fun x c y ha => ?_
  have hgo : ¬ ((s.run counted x).atTop && test (c :: (y ++ rest))) = true := by
    intro hstop
    obtain ⟨htop, htest⟩ := Bool.and_eq_true_iff.1 hstop
    rw [h x c y ha htop] at htest
    contradiction
  rw [cutFrom, if_neg hgo]

/-- a split passes over a text in which no separator stands at the top level -/
theorem piecesFrom_append_of_not_atTop {separator : Char}
    (h : ∀ x y, a = x ++ separator :: y → (s.run counted x).atTop = false) (rest : Text) :
    piecesFrom counted separator s (a ++ rest) =
      a.foldr Text.consFirst (piecesFrom counted separator (s.run counted a) rest) := by
  refine foldr_read fun x c y ha => ?_
  have hgo : ¬ ((s.run counted x).atTop && c == separator) = true := by
    intro hstop
    obtain ⟨htop, hc⟩ := Bool.and_eq_true_iff.1 hstop
    obtain rfl := beq_iff_eq.1 hc
    rw [h x y ha] at htop
    contradiction
  rw [piecesFrom, if_neg hgo]

end Read

namespace Crosses

variable {counted : Delimiters} {p : Char → Prop} {s : State} {a b : Text}

theorem append (ha : Crosses counted p s a) (hb : Crosses counted p (s.run counted a) b) :
    Crosses counted p s (a ++ b) := by
  refine ⟨fun x c y htext htop => ?_, ?_, ?_⟩
  · rcases Text.append_eq_append_cons htext with ⟨z, ha', -⟩ | ⟨z, rfl, hb'⟩
    · exact ha.top x c z ha' htop
    · rw [State.run_append] at htop
      exact hb.top z c y hb' htop
  · rw [State.run_append]
    exact hb.code
  · rw [State.run_append, hb.levels, ha.levels]

theorem mono {q : Char → Prop} (h : Crosses counted p s a) (hpq : ∀ c, p c → q c) : Crosses counted q s a :=
  ⟨fun x c y ha htop => hpq c (h.top x c y ha htop), h.code, h.levels⟩

/-- a search that no character with the property ends passes over the text -/
theorem cutFrom_append (h : Crosses counted p s a) (test : Text → Bool) (ht : ∀ c rest, p c → test (c :: rest) = false)
    (rest : Text) :
    cutFrom counted test s (a ++ rest) =
      (cutFrom counted test (s.run counted a) rest).map fun q => (a ++ q.1, q.2) :=
  cutFrom_append_of_not_test fun x c y ha htop => ht c (y ++ rest) (h.top x c y ha htop)

/-- a split at a character without the property passes over the text -/
theorem piecesFrom_append (h : Crosses counted p s a) {separator : Char} (hsep : ¬ p separator) (rest : Text) :
    piecesFrom counted separator s (a ++ rest) =
      a.foldr Text.consFirst (piecesFrom counted separator (s.run counted a) rest) :=
  piecesFrom_append_of_not_atTop (fun x y ha => Bool.eq_false_iff.2 fun htop => hsep (h.top x separator y ha htop)) rest

end Crosses

theorem Passable.append {counted : Delimiters} {p : Char → Prop} {a b : Text} (ha : Passable counted p a)
    (hb : Passable counted p b) : Passable counted p (a ++ b) := by
  intro s hs h0
  have hfirst := ha s hs h0
  exact hfirst.append (hb _ hfirst.code (by rw [hfirst.levels, h0]))

/-! ## Deeper levels -/

/-- a scan from this state crosses the text, and it meets something at the top level only if it started there -/
def CrossesWithin (counted : Delimiters) (p : Char → Prop) (s : State) (a : Text) : Prop :=
  Crosses counted (fun c => s.levels.total = 0 ∧ p c) s a

section Within

variable {counted : Delimiters} {p : Char → Prop} {s : State} {a : Text}

theorem crossesWithin_nil (hs : s.mode = .code) : CrossesWithin counted p s [] :=
  ⟨fun x c y ha => by simp at ha, hs, rfl⟩

theorem CrossesWithin.crosses (h : CrossesWithin counted p s a) : Crosses counted p s a := h.mono fun _ hc => hc.2

theorem CrossesWithin.append {b : Text} (ha : CrossesWithin counted p s a)
    (hb : CrossesWithin counted p (s.run counted a) b) : CrossesWithin counted p s (a ++ b) := by
  unfold CrossesWithin at hb
  rw [ha.levels] at hb
  exact Crosses.append ha hb

theorem crossesWithin_char {c : Char} (hc : Plain counted c) (hs : s.mode = .code) (hp : p c) :
    CrossesWithin counted p s [c] := by
  have hrun : s.run counted [c] = { s with previous := some c } := step_plain hc hs
  refine ⟨fun x d y ha htop => ?_, by rw [hrun]; exact hs, by rw [hrun]⟩
  cases x with
  | nil =>
    obtain ⟨rfl, -⟩ := List.cons_eq_cons.1 ha
    rw [State.run_nil, atTop_code hs, beq_iff_eq] at htop
    exact ⟨htop, hp⟩
  | cons e x => simp at ha

/-- behind an opening bracket the scan stands one level deeper, up to the closing one -/
theorem crossesWithin_group {q : Char → Prop} {b : Bracket} {inner : Text} (hb : .bracket b ∈ counted)
    (hs : s.mode = .code) (h0 : 0 ≤ s.levels.total) (hp : p b.opening)
    (hi : CrossesWithin counted q (s.step counted b.opening) inner) :
    CrossesWithin counted p s (b.opening :: inner ++ [b.closing]) := by
  have hopen : (s.step counted b.opening).levels = s.levels.add b 1 := by rw [step_opening hb hs]
  have hclose : s.run counted (b.opening :: inner ++ [b.closing]) =
      ((s.step counted b.opening).run counted inner).step counted b.closing := by
    rw [List.cons_append, State.run_cons, State.run_append, State.run_cons, State.run_nil]
  rw [step_closing hb hi.code] at hclose
  refine ⟨fun x c y ha htop => ?_, by rw [hclose]; exact hi.code, ?_⟩
  · cases x with
    | nil =>
      obtain ⟨rfl, -⟩ := List.cons_eq_cons.1 ha
      rw [State.run_nil, atTop_code hs, beq_iff_eq] at htop
      exact ⟨htop, hp⟩
    | cons d x =>
      rw [List.cons_append, List.cons_append, List.cons.injEq] at ha
      obtain ⟨rfl, hrest⟩ := ha
      rw [State.run_cons] at htop
      rcases Text.append_eq_append_cons hrest with ⟨z, hinner, -⟩ | ⟨z, rfl, hz⟩
      · obtain ⟨hzero, -⟩ := hi.top x c z hinner htop
        rw [hopen, Levels.total_add] at hzero
        omega
      · obtain rfl : z = [] := by
          cases z with
          | nil => rfl
          | cons d z => simp at hz
        rw [List.append_nil, atTop_code hi.code, hi.levels, hopen, Levels.total_add, beq_iff_eq] at htop
        omega
  · rw [hclose, hi.levels, hopen, add_add_neg]

end Within

/-! ## Well-nested text -/

/-- counted brackets are paired, and the characters outside them, opening brackets included, have the property -/
inductive Shielded (counted : Delimiters) : (Char → Prop) → Text → Prop where
  | nil {p : Char → Prop} : Shielded counted p []
  | char {p : Char → Prop} {c : Char} : Plain counted c → p c → Shielded counted p [c]
  | append {p : Char → Prop} {a b : Text} : Shielded counted p a → Shielded counted p b → Shielded counted p (a ++ b)
  | group {p : Char → Prop} {b : Bracket} {inner : Text} : .bracket b ∈ counted → p b.opening →
      Shielded counted (fun _ => True) inner → Shielded counted p (b.opening :: inner ++ [b.closing])

namespace Shielded

variable {counted : Delimiters} {p : Char → Prop} {a : Text}

theorem of_forall (h : ∀ c ∈ a, Plain counted c ∧ p c) : Shielded counted p a := by
  induction a with
  | nil => exact .nil
  | cons c a ih =>
    have hc := h c List.mem_cons_self
    exact .append (.char hc.1 hc.2) (ih fun d hd => h d (List.mem_cons_of_mem c hd))

theorem of_blanks (hp : ∀ c, Text.isBlank c = true → p c) (blanks : Text.Blanks) : Shielded counted p blanks.1 :=
  .of_forall fun c hc => ⟨plain_of_isBlank counted (blanks.2 c hc), hp c (blanks.2 c hc)⟩

theorem mono {q : Char → Prop} (h : Shielded counted p a) (hpq : ∀ c, p c → q c) : Shielded counted q a := by
  induction h with
  | nil => exact .nil
  | char hc hp => exact .char hc (hpq _ hp)
  | append _ _ iha ihb => exact .append (iha hpq) (ihb hpq)
  | group hb hp hi _ => exact .group hb (hpq _ hp) hi

theorem crossesWithin (h : Shielded counted p a) {s : State} (hs : s.mode = .code) (h0 : 0 ≤ s.levels.total) :
    CrossesWithin counted p s a := by
  induction h generalizing s with
  | nil => exact crossesWithin_nil hs
  | char hc hp => exact crossesWithin_char hc hs hp
  | append _ _ iha ihb =>
    have hfirst := iha hs h0
    exact hfirst.append (ihb hfirst.code (by rwa [hfirst.levels]))
  | @group _ b inner hb hp _ ih =>
    have hopen := step_opening hb hs
    refine crossesWithin_group hb hs h0 hp (ih ?_ ?_)
    · rw [hopen]
      exact hs
    · rw [hopen, Levels.total_add]
      omega

theorem passable (h : Shielded counted p a) : Passable counted p a := by
  intro s hs h0
  exact (h.crossesWithin hs (Int.le_of_eq h0.symm)).crosses

/-- A scan that counts fewer brackets sees more characters. All of them have the new property, if every character has it
that closes none of the brackets still counted. -/
theorem weaken {fewer : Delimiters} (h : Shielded counted p a) (hsub : fewer ⊆ counted) {q : Char → Prop}
    (hq : ∀ c, (∀ b, .bracket b ∈ fewer → c ≠ b.closing) → q c) : Shielded fewer q a := by
  induction h generalizing q with
  | nil => exact .nil
  | char hc _ => exact .char (hc.mono hsub) (hq _ fun b hb => (hc.ne.2 b (hsub hb)).2)
  | append _ _ iha ihb => exact .append (iha hq) (ihb hq)
  | @group _ b inner _ _ _ ih =>
    have hopening : q b.opening := hq _ fun b' _ => by cases b <;> cases b' <;> decide
    by_cases hb : .bracket b ∈ fewer
    · exact .group hb hopening (ih fun _ _ => trivial)
    · have hclosing : q b.closing := by
        refine hq _ fun b' hb' => ?_
        have hne : b' ≠ b := fun he => hb (he ▸ hb')
        revert hne
        cases b <;> cases b' <;> decide
      obtain ⟨hpo, hpc⟩ := plain_bracket hb
      exact .append (.append (.char hpo hopening) (ih hq)) (.char hpc hclosing)

theorem intercalate {separator : Text} (hs : Shielded counted p separator) {pieces : List Text}
    (h : ∀ q ∈ pieces, Shielded counted p q) : Shielded counted p (List.intercalate separator pieces) := by
  induction pieces with
  | nil => exact .nil
  | cons piece pieces ih =>
    have hp := h piece List.mem_cons_self
    cases pieces with
    | nil => rwa [List.intercalate_singleton]
    | cons next pieces =>
      rw [List.intercalate_cons_cons]
      exact (hp.append hs).append (ih fun q hq => h q (List.mem_cons_of_mem piece hq))

end Shielded

/-! ## Searches from the start of a text -/

variable {counted : Delimiters} {a : Text}

theorem Crosses.atTop_run {p : Char → Prop} (h : Crosses counted p {} a) : (State.run counted {} a).atTop = true := by
  rw [atTop_code h.code, h.levels]
  rfl

theorem atTop_run {p : Char → Prop} (h : Shielded counted p a) : (State.run counted {} a).atTop = true :=
  (h.passable {} rfl rfl).atTop_run

theorem isPrefixOf_singleton {c d : Char} (h : d ≠ c) (rest : Text) : [c].isPrefixOf (d :: rest) = false := by
  simp [List.isPrefixOf, Ne.symm h]

/-- a search for a character that a scan meets nowhere in a text at the top level finds the one behind it -/
theorem Crosses.cut?_append_cons {c : Char} (h : Crosses counted (· ≠ c) {} a) (rest : Text) :
    cut? counted [c] (a ++ c :: rest) = some (a, c :: rest) := by
  have hpass : ∀ d rest, d ≠ c → [c].isPrefixOf (d :: rest) = false := fun d rest hd => isPrefixOf_singleton hd rest
  have hcut := h.cutFrom_append ([c].isPrefixOf ·) hpass (c :: rest)
  simp only [cut?, List.isEmpty_cons, Bool.false_eq_true, ite_false, hcut]
  simp [cutFrom, h.atTop_run]

theorem cut?_append_cons {c : Char} (h : Shielded counted (· ≠ c) a) (rest : Text) :
    cut? counted [c] (a ++ c :: rest) = some (a, c :: rest) :=
  (h.passable {} rfl rfl).cut?_append_cons rest

theorem cut?_eq_none {c : Char} (h : Shielded counted (· ≠ c) a) : cut? counted [c] a = none := by
  have hpass : ∀ d rest, d ≠ c → [c].isPrefixOf (d :: rest) = false := fun d rest hd => isPrefixOf_singleton hd rest
  have hcut := (h.passable {} rfl rfl).cutFrom_append ([c].isPrefixOf ·) hpass []
  simp only [List.append_nil] at hcut
  simp [cut?, hcut, cutFrom]

/-- where no end of the text passes the test, the search finds nothing -/
theorem cutFrom_eq_none {test : Text → Bool} {text : Text} (h : ∀ a b, text = a ++ b → test b = false) (s : State) :
    cutFrom counted test s text = none := by
  induction text generalizing s with
  | nil => rfl
  | cons c rest ih =>
    have hhere : test (c :: rest) = false := h [] (c :: rest) rfl
    have hrest : ∀ a b, rest = a ++ b → test b = false := fun a b he => h (c :: a) b (by rw [he, List.cons_append])
    simp [cutFrom, hhere, ih hrest]

theorem cutFrom_eq_none_of_absent {needle text : Text} (h : ¬ needle <:+: text) (s : State) :
    cutFrom counted (needle.isPrefixOf ·) s text = none := by
  refine cutFrom_eq_none (fun a b he => ?_) s
  by_contra hp
  obtain ⟨rest, rfl⟩ := List.isPrefixOf_iff_prefix.1 (Bool.not_eq_false _ ▸ hp)
  exact h ⟨a, rest, by rw [he, List.append_assoc]⟩

theorem cut?_eq_none_of_absent {needle text : Text} (h : ¬ needle <:+: text) : cut? counted needle text = none := by
  unfold cut?
  split
  · rfl
  · exact cutFrom_eq_none_of_absent h {}

theorem before_eq_self {needle text : Text} (h : ¬ needle <:+: text) : before counted needle text = text := by
  rw [before, cut?_eq_none_of_absent h]
  rfl

theorem cutWhere?_append_cons {test : Char → Bool} (h : Shielded counted (test · = false) a) {c : Char}
    (hc : test c = true) (rest : Text) : cutWhere? counted test (a ++ c :: rest) = some (a, c :: rest) := by
  have hpass : ∀ (d : Char) (rest : Text), test d = false → (d :: rest).head?.any test = false :=
    fun d rest hd => by simpa using hd
  have hcut := (h.passable {} rfl rfl).cutFrom_append (·.head?.any test) hpass (c :: rest)
  rw [cutWhere?, hcut]
  simp [cutFrom, atTop_run h, hc]

/-! ## Splitting joined pieces -/

/-- pieces joined by the separator are found again, from any state at the top -/
theorem piecesFrom_intercalate {separator : Char} (piece : Text) (pieces : List Text)
    (h : ∀ q ∈ piece :: pieces, Passable counted (· ≠ separator) q) {s : State} (hs : s.mode = .code)
    (h0 : s.levels.total = 0) :
    piecesFrom counted separator s (List.intercalate [separator] (piece :: pieces)) = piece :: pieces := by
  induction pieces generalizing piece s with
  | nil =>
    have hp := (h piece List.mem_cons_self s hs h0).piecesFrom_append (fun hne => hne rfl) []
    simpa [List.intercalate, piecesFrom, Text.foldr_consFirst] using hp
  | cons next pieces ih =>
    have hp := h piece List.mem_cons_self s hs h0
    have hzero : (s.run counted piece).levels.total = 0 := by rw [hp.levels, h0]
    have htop : (s.run counted piece).atTop = true := by rw [atTop_code hp.code, hzero]; rfl
    have hjoin : List.intercalate [separator] (piece :: next :: pieces) =
        piece ++ separator :: List.intercalate [separator] (next :: pieces) := by
      simp [List.intercalate]
    rw [hjoin, hp.piecesFrom_append (fun hne => hne rfl)]
    simp only [piecesFrom, htop, beq_self_eq_true, Bool.and_self, ite_true, Text.foldr_consFirst, List.append_nil]
    rw [ih next (fun q hq => h q (List.mem_cons_of_mem piece hq)) hp.code hzero]

theorem split_intercalate {separator : Char} {pieces : List Text} (hne : pieces ≠ [])
    (h : ∀ q ∈ pieces, Passable counted (· ≠ separator) q) :
    split counted separator (List.intercalate [separator] pieces) =
      (pieces.map Text.trim).filter fun piece => !piece.isEmpty := by
  cases pieces with
  | nil => contradiction
  | cons piece pieces => rw [split, piecesFrom_intercalate piece pieces h rfl rfl]

/-- a piece with blanks around it -/
structure Padded where
  before : Text.Blanks
  piece : Text
  after : Text.Blanks

def Padded.text (p : Padded) : Text := p.before.1 ++ p.piece ++ p.after.1

/-- a piece that a split finds between two separators -/
structure IsPiece (counted : Delimiters) (separator : Char) (piece : Text) : Prop where
  starts : Text.StartsSolid piece
  ends : Text.EndsSolid piece
  shielded : Shielded counted (· ≠ separator) piece

theorem shielded_padded {separator : Char} (hs : Text.isBlank separator = false) {p : Padded}
    (h : IsPiece counted separator p.piece) : Shielded counted (· ≠ separator) p.text := by
  have hblank : ∀ c, Text.isBlank c = true → c ≠ separator := by
    rintro c hc rfl
    rw [hc] at hs
    contradiction
  exact ((Shielded.of_blanks hblank p.before).append h.shielded).append (.of_blanks hblank p.after)

/-- **A list is cut into its pieces**, whatever blanks stand around them. -/
theorem split_padded {separator : Char} (hs : Text.isBlank separator = false) {list : List Padded} (hne : list ≠ [])
    (h : ∀ p ∈ list, IsPiece counted separator p.piece) :
    split counted separator (List.intercalate [separator] (list.map Padded.text)) = list.map Padded.piece := by
  have hpassable : ∀ q ∈ list.map Padded.text, Passable counted (· ≠ separator) q := by
    intro q hq
    obtain ⟨p, hp, rfl⟩ := List.mem_map.1 hq
    exact (shielded_padded hs (h p hp)).passable
  have htrim : (list.map Padded.text).map Text.trim = list.map Padded.piece := by
    rw [List.map_map]
    exact List.map_congr_left fun p hp => Text.trim_append p.before.2 (h p hp).starts (h p hp).ends p.after.2
  rw [split_intercalate (by simpa using hne) hpassable, htrim, List.filter_eq_self]
  intro piece hpiece
  obtain ⟨p, hp, rfl⟩ := List.mem_map.1 hpiece
  simpa using (h p hp).starts.ne_nil

/-- a list with a comma and a blank between its pieces, and blanks around it, is one of padded pieces -/
theorem exists_padded {pieces : List Text} (hne : pieces ≠ []) (before after : Text.Blanks) :
    ∃ list : List Padded, list ≠ [] ∧ list.map Padded.piece = pieces ∧
      List.intercalate [','] (list.map Padded.text) =
        before.1 ++ List.intercalate [',', ' '] pieces ++ after.1 := by
  induction pieces generalizing before with
  | nil => contradiction
  | cons piece pieces ih =>
    cases pieces with
    | nil => exact ⟨[⟨before, piece, after⟩], by simp, rfl, by simp [Padded.text]⟩
    | cons next pieces =>
      obtain ⟨list, hlist, hpieces, htext⟩ := ih (by simp) ⟨[' '], by decide⟩
      obtain ⟨second, others, rfl⟩ := List.exists_cons_of_ne_nil hlist
      refine ⟨⟨before, piece, ⟨[], by simp⟩⟩ :: second :: others, by simp, by rw [List.map_cons, hpieces], ?_⟩
      rw [List.map_cons, List.map_cons, List.intercalate_cons_cons, ← List.map_cons, htext, List.intercalate_cons_cons]
      simp [Padded.text]

theorem split_comma_space {counted : Delimiters} {pieces : List Text} (hne : pieces ≠ [])
    (h : ∀ q ∈ pieces, IsPiece counted ',' q) (before after : Text.Blanks) :
    split counted ',' (before.1 ++ List.intercalate [',', ' '] pieces ++ after.1) = pieces := by
  obtain ⟨list, hlist, rfl, htext⟩ := exists_padded hne before after
  rw [← htext, split_padded (by decide) hlist fun p hp => h _ (List.mem_map_of_mem hp)]

end ClassAtlas.Nesting
