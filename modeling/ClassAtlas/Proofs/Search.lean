/-
Where a search cuts, and where a scan may start anew.

A search cuts at the first place that stands at the top level and passes its test (`cutFrom_eq_some_iff`), and it finds
nothing exactly if there is no such place (`cutFrom_eq_none_iff`). So no needle stands at the top level of what `before`
leaves (`not_atTop_of_before`).

The state of a scan matters only through its levels, its mode and an `@` right before. A scan that stands in code at
level 0 and has not just read an `@` goes on as a new one does (`AtStart`).
-/
import Mathlib.Data.List.Induction
import ClassAtlas.Proofs.Nesting

namespace ClassAtlas.Nesting

/-! ## The first place -/

/-- a place where a search may cut: at the top level, before a text that passes the test -/
structure IsPlace (counted : Delimiters) (test : Text → Bool) (s : State) (a b : Text) : Prop where
  ne_nil : b ≠ []
  atTop : (s.run counted a).atTop = true
  passes : test b = true

section Places

variable {counted : Delimiters} {test : Text → Bool} {s : State} {text a b : Text}

theorem isPlace_cons {c : Char} : IsPlace counted test s (c :: a) b ↔ IsPlace counted test (s.step counted c) a b :=
  ⟨fun h => ⟨h.ne_nil, h.atTop, h.passes⟩, fun h => ⟨h.ne_nil, h.atTop, h.passes⟩⟩

theorem cutFrom_eq_none_iff :
    cutFrom counted test s text = none ↔ ∀ a b, text = a ++ b → ¬ IsPlace counted test s a b := by
  induction text generalizing s with
  | nil =>
    refine ⟨fun _ a b he hp => ?_, fun _ => rfl⟩
    exact hp.ne_nil (List.append_eq_nil_iff.1 he.symm).2
  | cons c rest ih =>
    by_cases hc : (s.atTop && test (c :: rest)) = true
    · have hplace : IsPlace counted test s [] (c :: rest) := by
        obtain ⟨htop, htest⟩ := Bool.and_eq_true_iff.1 hc
        exact ⟨by simp, htop, htest⟩
      simp only [cutFrom, hc, if_true, reduceCtorEq, false_iff]
      intro h
      exact h [] (c :: rest) rfl hplace
    · rw [cutFrom, if_neg hc, Option.map_eq_none_iff, ih]
      constructor
      · intro h a b he hp
        cases a with
        | nil =>
          obtain rfl : b = c :: rest := he.symm
          exact hc (Bool.and_eq_true_iff.2 ⟨hp.atTop, hp.passes⟩)
        | cons d a =>
          obtain ⟨rfl, rfl⟩ := List.cons_eq_cons.1 he
          exact h a b rfl (isPlace_cons.1 hp)
      · intro h a b he hp
        exact h (c :: a) b (by rw [he, List.cons_append]) (isPlace_cons.2 hp)

/-- the place that is found, and that none comes before it -/
theorem isPlace_of_cutFrom (h : cutFrom counted test s text = some (a, b)) :
    IsPlace counted test s a b ∧ ∀ a' b', text = a' ++ b' → IsPlace counted test s a' b' → a.length ≤ a'.length := by
  induction text generalizing s a with
  | nil => simp [cutFrom] at h
  | cons c rest ih =>
    unfold cutFrom at h
    split at h
    · rename_i hc
      obtain ⟨rfl, rfl⟩ := by simpa using h
      obtain ⟨htop, htest⟩ := Bool.and_eq_true_iff.1 hc
      exact ⟨⟨by simp, htop, htest⟩, fun a' b' _ _ => Nat.zero_le _⟩
    · rename_i hc
      obtain ⟨⟨a, b⟩, hcut, he⟩ := Option.map_eq_some_iff.1 h
      obtain ⟨rfl, rfl⟩ := by simpa using he
      obtain ⟨hplace, hfirst⟩ := ih hcut
      refine ⟨isPlace_cons.2 hplace, fun a' b' he' hp => ?_⟩
      cases a' with
      | nil =>
        obtain rfl : b' = c :: rest := he'.symm
        exact absurd (Bool.and_eq_true_iff.2 ⟨hp.atTop, hp.passes⟩) hc
      | cons d a' =>
        obtain ⟨rfl, rfl⟩ := List.cons_eq_cons.1 he'
        exact Nat.succ_le_succ (hfirst a' b' rfl (isPlace_cons.1 hp))

/-- **A search cuts at the first place.** -/
theorem cutFrom_eq_some_iff :
    cutFrom counted test s text = some (a, b) ↔ text = a ++ b ∧ IsPlace counted test s a b ∧
      ∀ a' b', text = a' ++ b' → IsPlace counted test s a' b' → a.length ≤ a'.length := by
  constructor
  · intro h
    exact ⟨cutFrom_append h, isPlace_of_cutFrom h⟩
  · rintro ⟨rfl, hplace, hfirst⟩
    cases hcut : cutFrom counted test s (a ++ b) with
    | none => exact absurd hplace (cutFrom_eq_none_iff.1 hcut a b rfl)
    | some p =>
      -- both places are the first one
      obtain ⟨a', b'⟩ := p
      have he := cutFrom_append hcut
      obtain ⟨hplace', hfirst'⟩ := isPlace_of_cutFrom hcut
      have hlength : a.length = a'.length := Nat.le_antisymm (hfirst a' b' he hplace') (hfirst' a b rfl hplace)
      obtain ⟨rfl, rfl⟩ := List.append_inj he hlength
      rfl

/-- a search through two texts looks in the first one, and goes on in the second one if it finds nothing there -/
theorem cutFrom_append_or (ht : ∀ x, x ≠ [] → x <:+ a → test (x ++ b) = test x) :
    cutFrom counted test s (a ++ b) =
      ((cutFrom counted test s a).map fun p => (p.1, p.2 ++ b)).or
        ((cutFrom counted test (s.run counted a) b).map fun p => (a ++ p.1, p.2)) := by
  induction a generalizing s with
  | nil => simp [cutFrom]
  | cons c a ih =>
    have hhere := ht (c :: a) (List.cons_ne_nil c a) List.suffix_rfl
    have hrest := ih (s := s.step counted c) fun x hx hs => ht x hx (hs.trans (List.suffix_cons c a))
    rw [List.cons_append] at hhere ⊢
    rw [cutFrom, cutFrom, hhere]
    split
    · rfl
    · rw [hrest, State.run_cons]
      cases cutFrom counted test (s.step counted c) a <;> simp [Function.comp_def]

/-- a character that completes no needle changes no cut -/
theorem cutFrom_concat {c : Char} (htest : ∀ b, test (b ++ [c]) = test b) (hnil : test [] = false) (s : State)
    (text : Text) :
    cutFrom counted test s (text ++ [c]) = (cutFrom counted test s text).map fun p => (p.1, p.2 ++ [c]) := by
  have hc : test [c] = false := (htest []).trans hnil
  have hbehind : ∀ s, cutFrom counted test s [c] = none := fun s => by simp [cutFrom, hc]
  rw [cutFrom_append_or fun x _ _ => htest x, hbehind, Option.map_none, Option.or_none]

end Places

/-- what stands before the first needle is the start of the text -/
theorem before_prefix (counted : Delimiters) (needle text : Text) : before counted needle text <+: text := by
  unfold before
  cases hcut : cut? counted needle text with
  | none => exact List.prefix_rfl
  | some p => exact ⟨p.2, (cut?_append hcut).symm⟩

/-- it reaches no further than a needle at the top level -/
theorem length_before_le {counted : Delimiters} {needle text a b : Text} (hn : needle ≠ []) (htext : text = a ++ b)
    (hb : needle <+: b) (htop : (State.run counted {} a).atTop = true) :
    (before counted needle text).length ≤ a.length := by
  have hplace : IsPlace counted (needle.isPrefixOf ·) {} a b :=
    ⟨fun hnil => hn (List.prefix_nil.1 (hnil ▸ hb)), htop, List.isPrefixOf_iff_prefix.2 hb⟩
  have hcut? : cut? counted needle text = cutFrom counted (needle.isPrefixOf ·) {} text := by
    simp [cut?, hn]
  rw [before, hcut?]
  cases hcut : cutFrom counted (needle.isPrefixOf ·) {} text with
  | none => exact absurd hplace (cutFrom_eq_none_iff.1 hcut a b htext)
  | some p => exact (isPlace_of_cutFrom hcut).2 a b htext hplace

/-- where it leaves something out, that starts with such a needle -/
theorem needle_of_before {counted : Delimiters} {needle text left : Text} (hn : needle ≠ [])
    (htext : text = before counted needle text ++ left) (hleft : left ≠ []) :
    needle <+: left ∧ (State.run counted {} (before counted needle text)).atTop = true := by
  have hcut? : cut? counted needle text = cutFrom counted (needle.isPrefixOf ·) {} text := by
    simp [cut?, hn]
  rw [before, hcut?] at htext ⊢
  cases hcut : cutFrom counted (needle.isPrefixOf ·) {} text with
  | none =>
    rw [hcut, Option.map_none, Option.getD_none] at htext
    exact absurd (List.self_eq_append_right.1 htext) hleft
  | some p =>
    obtain ⟨he, hplace, -⟩ := cutFrom_eq_some_iff.1 hcut
    rw [hcut, Option.map_some, Option.getD_some] at htext
    obtain rfl : p.2 = left := List.append_cancel_left (he.symm.trans htext)
    exact ⟨List.isPrefixOf_iff_prefix.1 hplace.passes, hplace.atTop⟩

/-- no needle stands at the top level of what `before` leaves -/
theorem not_atTop_of_before {counted : Delimiters} {needle text a b : Text} (hn : needle ≠ [])
    (h : before counted needle text = a ++ needle ++ b) : (State.run counted {} a).atTop = false := by
  obtain ⟨y, hy⟩ := before_prefix counted needle text
  have htext : text = a ++ (needle ++ (b ++ y)) := by rw [← hy, h, List.append_assoc, List.append_assoc]
  refine Bool.eq_false_iff.2 fun htop => ?_
  have hle := length_before_le hn htext (List.prefix_append needle (b ++ y)) htop
  have hpos : 0 < needle.length := List.length_pos_iff.2 hn
  rw [h, List.length_append, List.length_append] at hle
  omega

/-- a search from the byte offset behind a text is one in what follows -/
theorem offsetFrom?_append (cut : Text → Option (Text × Text)) (a b : Text) :
    offsetFrom? cut (a ++ b) (Text.byteLength a) =
      (cut b).map fun p => Text.byteLength a + Text.byteLength p.1 := by
  rw [offsetFrom?, Text.splitAtByte?_append, Option.bind_eq_bind, Option.bind_some]
  dsimp only
  cases cut b <;> rfl

theorem offset?_append (counted : Delimiters) (needle a b : Text) :
    offset? counted needle (a ++ b) (Text.byteLength a) =
      (cut? counted needle b).map fun p => Text.byteLength a + Text.byteLength p.1 :=
  offsetFrom?_append _ a b

/-! ## Starting anew -/

/-- a scan remembers the last character of a text, and what it remembered before if there is none -/
theorem previous_run (counted : Delimiters) (s : State) (a : Text) :
    (s.run counted a).previous = a.getLast?.or s.previous := by
  induction a using List.reverseRecOn with
  | nil => rfl
  | append_singleton a c _ =>
    rw [State.run_append, List.getLast?_concat]
    rfl

theorem previous_run_ne {counted : Delimiters} {s : State} {a : Text} {c : Char} (hs : s.previous ≠ some c)
    (ha : a.getLast? ≠ some c) : (s.run counted a).previous ≠ some c := by
  rw [previous_run]
  cases hlast : a.getLast? with
  | none => exact hs
  | some d => rwa [hlast] at ha

/-- a scan in this state goes on as a new one does -/
structure AtStart (s : State) : Prop where
  levels : s.levels = {}
  code : s.mode = .code
  previous : s.previous ≠ some '@'

theorem atStart_init : AtStart {} := ⟨rfl, rfl, by simp⟩

/-- a scan of code is at a start after a character that it does not count and that is no `@` -/
theorem atStart_step {counted : Delimiters} {s : State} (hl : s.levels = {}) (hm : s.mode = .code) {c : Char}
    (hc : Plain counted c) (hat : c ≠ '@') : AtStart (s.step counted c) := by
  rw [step_plain hc hm]
  exact ⟨hl, hm, by simpa using hat⟩

namespace AtStart

variable {counted : Delimiters} {s : State}

theorem step_eq (h : AtStart s) (c : Char) : s.step counted c = State.step counted {} c := by
  obtain ⟨hlevels, hmode, hprevious⟩ := h
  obtain ⟨levels, mode, previous⟩ := s
  obtain rfl : levels = {} := hlevels
  obtain rfl : mode = .code := hmode
  -- a literal that starts here is verbatim in neither scan
  have hat : (previous == some '@') = false := by simpa using hprevious
  simp only [State.step, State.readCode, State.openLiteral, hat]
  split
  · split <;> rfl
  · split <;> rfl
  · split <;> rfl
  · rfl

theorem run_eq (h : AtStart s) {a : Text} (ha : a ≠ []) : s.run counted a = State.run counted {} a := by
  obtain ⟨c, a, rfl⟩ := List.exists_cons_of_ne_nil ha
  rw [State.run_cons, State.run_cons, h.step_eq]

theorem atTop_run (h : AtStart s) (a : Text) : (s.run counted a).atTop = (State.run counted {} a).atTop := by
  cases a with
  | nil =>
    rw [State.run_nil, atTop_code h.code, h.levels]
    rfl
  | cons c a => rw [h.run_eq (by simp)]

theorem run_plain (h : AtStart s) {a : Text} (ha : ∀ c ∈ a, Plain counted c ∧ c ≠ '@') :
    AtStart (s.run counted a) := by
  induction a generalizing s with
  | nil => exact h
  | cons c a ih =>
    obtain ⟨hc, hat⟩ := ha c List.mem_cons_self
    exact ih (atStart_step h.levels h.code hc hat) fun d hd => ha d (List.mem_cons_of_mem c hd)

theorem run_blanks (h : AtStart s) {blanks : Text} (hb : ∀ c ∈ blanks, Text.isBlank c = true) :
    AtStart (s.run counted blanks) := by
  refine h.run_plain fun c hc => ⟨plain_of_isBlank counted (hb c hc), ?_⟩
  rintro rfl
  exact absurd (hb _ hc) (by decide)

end AtStart

/-! ## Scans that count literals alone -/

theorem levels_step {counted : Delimiters} (h : ∀ b, .bracket b ∉ counted) (s : State) (c : Char) :
    (s.step counted c).levels = s.levels := by
  have hnone : ∀ b, counted.contains (.bracket b) = false := fun b => by simpa using h b
  unfold State.step
  cases s.mode with
  | literal q verbatim escaped => rfl
  | code =>
    simp only [State.readCode, hnone, Bool.false_eq_true, if_false]
    split
    · split <;> rfl
    · rfl
    · rfl
    · rfl

theorem levels_run {counted : Delimiters} (h : ∀ b, .bracket b ∉ counted) (s : State) (a : Text) :
    (s.run counted a).levels = s.levels := by
  induction a generalizing s with
  | nil => rfl
  | cons c a ih => rw [State.run_cons, ih, levels_step h]

theorem bracket_not_mem_literals (b : Bracket) : .bracket b ∉ Delimiters.literals := by
  cases b <;> decide

theorem levels_step_literals (s : State) (c : Char) : (s.step Delimiters.literals c).levels = s.levels :=
  levels_step bracket_not_mem_literals s c

theorem levels_run_literals (s : State) (a : Text) : (s.run Delimiters.literals a).levels = s.levels :=
  levels_run bracket_not_mem_literals s a

/-- where no bracket counts, the top level is what stands outside literals -/
theorem atTop_eq_not_inQuotes {s : State} (hs : s.levels = {}) : s.atTop = !s.inQuotes := by
  have htotal : s.levels.total = 0 := by rw [hs]; rfl
  unfold State.atTop State.depth
  rw [htotal]
  cases s.inQuotes <;> rfl

theorem inQuotes_eq_false_iff {s : State} : s.inQuotes = false ↔ s.mode = .code := by
  simp [State.inQuotes]

/-- a position outside literals, for a scan of the text before it from its start -/
def OutsideLiterals (a : Text) : Prop := (State.run Delimiters.literals {} a).inQuotes = false

instance (a : Text) : Decidable (OutsideLiterals a) := inferInstanceAs (Decidable (_ = _))

theorem outsideLiterals_iff {a : Text} : OutsideLiterals a ↔ (State.run Delimiters.literals {} a).atTop = true := by
  rw [atTop_eq_not_inQuotes (levels_run_literals {} a), OutsideLiterals, Bool.not_eq_true']

end ClassAtlas.Nesting
