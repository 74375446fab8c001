/-
Splits and searches, and whether they agree on what is top level.

A search reads every character. A split reads every character but the separators at which it cuts (`isCut_piecesFrom`).
Mostly that makes no difference, as a scan of code remembers nothing of a separator. It does inside a literal, where a
separator may be escaped or escape the next character, and next to an `@`, which makes a literal verbatim only if it
stands right before it (`Misread`). A scan may be at the top level inside a literal: the literal counts for one level and
a bracket that was closed too often for one less.

`split_topPlaces` says where a split cuts, that it cuts at the places of a search wherever neither happens, and for which
counted delimiters it does so in every text.
-/
import Mathlib.Data.List.Induction
import ClassAtlas.Proofs.Literal.Scan

namespace ClassAtlas.Nesting

variable {counted : Delimiters} {separator : Char} {s t : State} {text : Text}

/-! ## Places and the pieces between them -/

/-- the places of the separator at which a scan of all that stands before them is at the top level -/
def topPlaces (counted : Delimiters) (separator : Char) (s : State) (text : Text) : List Nat :=
  (List.range text.length).filter fun i => text[i]? == some separator && (s.run counted (text.take i)).atTop

/-- the text from a place on, cut at later places; the characters there are left out -/
def piecesBetween (text : Text) : Nat → List Nat → List Text
  | start, [] => [text.drop start]
  | start, i :: places => (text.drop start).take (i - start) :: piecesBetween text (i + 1) places

def cutAt (text : Text) (places : List Nat) : List Text := piecesBetween text 0 places

/-- the pieces trimmed, without the empty ones -/
def tidy (pieces : List Text) : List Text := (pieces.map Text.trim).filter fun piece => !piece.isEmpty

theorem topPlaces_cons (c : Char) (rest : Text) : topPlaces counted separator s (c :: rest) =
    if s.atTop && c == separator then 0 :: (topPlaces counted separator (s.step counted c) rest).map (· + 1)
    else (topPlaces counted separator (s.step counted c) rest).map (· + 1) := by
  rw [topPlaces, List.length_cons, List.range_succ_eq_map, List.filter_cons, List.filter_map, topPlaces]
  have hfirst : ((c :: rest)[0]? == some separator && (s.run counted ((c :: rest).take 0)).atTop) =
      (s.atTop && c == separator) := by
    rw [Bool.and_comm]
    rfl
  rw [hfirst]
  rfl

theorem piecesBetween_cons (c : Char) (text : Text) (start : Nat) (places : List Nat) :
    piecesBetween (c :: text) (start + 1) (places.map (· + 1)) = piecesBetween text start places := by
  induction places generalizing start with
  | nil => rfl
  | cons i places ih =>
    rw [List.map_cons, piecesBetween, piecesBetween, ih, List.drop_succ_cons, Nat.add_sub_add_right]

theorem cutAt_cons_here (c : Char) (text : Text) (places : List Nat) :
    cutAt (c :: text) (0 :: places.map (· + 1)) = [] :: cutAt text places := by
  rw [cutAt, piecesBetween, piecesBetween_cons]
  rfl

theorem cutAt_cons (c : Char) (text : Text) (places : List Nat) :
    cutAt (c :: text) (places.map (· + 1)) = Text.consFirst c (cutAt text places) := by
  cases places with
  | nil => rfl
  | cons i places =>
    rw [List.map_cons, cutAt, cutAt, piecesBetween, piecesBetween, piecesBetween_cons]
    rfl

/-- as `piecesFrom`, but that the scan goes on behind a separator having read it -/
theorem cutAt_topPlaces_cons (c : Char) (rest : Text) :
    cutAt (c :: rest) (topPlaces counted separator s (c :: rest)) =
      if s.atTop && c == separator then [] :: cutAt rest (topPlaces counted separator (s.step counted c) rest)
      else Text.consFirst c (cutAt rest (topPlaces counted separator (s.step counted c) rest)) := by
  rw [topPlaces_cons]
  split
  · exact cutAt_cons_here c rest _
  · exact cutAt_cons c rest _

/-- a search finds the first of the places -/
theorem cutFrom_topPlaces (counted : Delimiters) (separator : Char) (s : State) (text : Text) :
    (cutFrom counted (fun rest => rest.head?.any (· == separator)) s text).map Prod.fst =
      (topPlaces counted separator s text).head?.map text.take := by
  induction text generalizing s with
  | nil => rfl
  | cons c rest ih =>
    have htest : (c :: rest).head?.any (· == separator) = (c == separator) := rfl
    rw [cutFrom, topPlaces_cons, htest]
    split
    · rfl
    · have hshift : ∀ places : List Nat, (places.map (· + 1)).head?.map (c :: rest).take =
          (places.head?.map rest.take).map (c :: ·) := by
        intro places
        cases places <;> rfl
      rw [hshift, ← ih, Option.map_map, Option.map_map]
      rfl

theorem offsetWhere?_topPlaces (counted : Delimiters) (separator : Char) (text : Text) :
    offsetWhere? counted (· == separator) text 0 =
      (topPlaces counted separator {} text).head?.map fun i => Text.byteLength (text.take i) := by
  have hwhole : Text.splitAtByte? text 0 = some ([], text) := by cases text <;> rfl
  have hoffset : offsetWhere? counted (· == separator) text 0 =
      ((cutWhere? counted (· == separator) text).map Prod.fst).map Text.byteLength := by
    rw [offsetWhere?, offsetFrom?, hwhole]
    cases hcut : cutWhere? counted (· == separator) text with
    | none => simp [hcut]
    | some p => simp [hcut]
  rw [hoffset, cutWhere?, cutFrom_topPlaces, Option.map_map]
  rfl

/-! ## Where a split cuts -/

/-- between two pieces a scan of the pieces before is at the top level, and before a separator inside a piece it is
not -/
structure IsCut (counted : Delimiters) (separator : Char) (s : State) (pieces : List Text) : Prop where
  between : ∀ front back, front ≠ [] → back ≠ [] → pieces = front ++ back →
    (s.run counted front.flatten).atTop = true
  inside : ∀ front x y back, pieces = front ++ (x ++ separator :: y) :: back →
    (s.run counted (front.flatten ++ x)).atTop = false

theorem piecesFrom_ne_nil (s : State) (text : Text) : piecesFrom counted separator s text ≠ [] := by
  cases text with
  | nil => exact List.cons_ne_nil _ _
  | cons c rest =>
    rw [piecesFrom]
    split
    · exact List.cons_ne_nil _ _
    · cases piecesFrom counted separator (s.step counted c) rest <;> exact List.cons_ne_nil _ _

theorem intercalate_consFirst (c : Char) {pieces : List Text} (h : pieces ≠ []) :
    [separator].intercalate (Text.consFirst c pieces) = c :: [separator].intercalate pieces := by
  match pieces, h with
  | [piece], _ => simp [Text.consFirst]
  | piece :: next :: pieces, _ => simp [Text.consFirst, List.intercalate_cons_cons]

/-- nothing is lost but the separators -/
theorem intercalate_piecesFrom (s : State) (text : Text) :
    [separator].intercalate (piecesFrom counted separator s text) = text := by
  induction text generalizing s with
  | nil => rfl
  | cons c rest ih =>
    rw [piecesFrom]
    split
    · rename_i hcut
      obtain rfl := beq_iff_eq.1 (Bool.and_eq_true_iff.1 hcut).2
      have hrest := ih s
      cases hpieces : piecesFrom counted c s rest with
      | nil => exact absurd hpieces (piecesFrom_ne_nil s rest)
      | cons piece pieces =>
        rw [hpieces] at hrest
        rw [List.intercalate_cons_cons, hrest]
        rfl
    · rw [intercalate_consFirst c (piecesFrom_ne_nil _ rest), ih]

theorem IsCut.cons_here {pieces : List Text} (htop : s.atTop = true) (h : IsCut counted separator s pieces) :
    IsCut counted separator s ([] :: pieces) := by
  refine ⟨fun front back hfront hback he => ?_, fun front x y back he => ?_⟩
  · obtain ⟨piece, front, rfl⟩ := List.exists_cons_of_ne_nil hfront
    obtain ⟨rfl, htail⟩ := List.cons_eq_cons.1 he
    cases front with
    | nil => exact htop
    | cons next front => exact h.between (next :: front) back (List.cons_ne_nil _ _) hback htail
  · cases front with
    | nil => simp at he
    | cons piece front =>
      obtain ⟨rfl, htail⟩ := List.cons_eq_cons.1 he
      exact h.inside front x y back htail

theorem IsCut.consFirst {c : Char} {piece : Text} {pieces : List Text} (hc : s.atTop = true → c ≠ separator)
    (h : IsCut counted separator (s.step counted c) (piece :: pieces)) :
    IsCut counted separator s ((c :: piece) :: pieces) := by
  refine ⟨fun front back hfront hback he => ?_, fun front x y back he => ?_⟩
  · obtain ⟨first, front, rfl⟩ := List.exists_cons_of_ne_nil hfront
    obtain ⟨rfl, htail⟩ := List.cons_eq_cons.1 he
    exact h.between (piece :: front) back (List.cons_ne_nil _ _) hback (congrArg (piece :: ·) htail)
  · cases front with
    | nil =>
      obtain ⟨hfirst, rfl⟩ := List.cons_eq_cons.1 he
      cases x with
      | nil =>
        obtain ⟨rfl, rfl⟩ := List.cons_eq_cons.1 hfirst
        exact Bool.eq_false_iff.2 fun htop => hc htop rfl
      | cons d x =>
        obtain ⟨rfl, rfl⟩ := List.cons_eq_cons.1 hfirst
        exact h.inside [] x y _ rfl
    | cons first front =>
      obtain ⟨rfl, htail⟩ := List.cons_eq_cons.1 he
      exact h.inside (piece :: front) x y back (congrArg (piece :: ·) htail)

theorem isCut_piecesFrom (s : State) (text : Text) :
    IsCut counted separator s (piecesFrom counted separator s text) := by
  induction text generalizing s with
  | nil =>
    refine ⟨fun front back hfront hback he => ?_, fun front x y back he => ?_⟩
    · have hlength := congrArg List.length he
      have hfront := List.length_pos_iff.2 hfront
      have hback := List.length_pos_iff.2 hback
      simp only [piecesFrom, List.length_append, List.length_cons, List.length_nil] at hlength
      omega
    · have hmem : x ++ separator :: y ∈ piecesFrom counted separator s [] := by simp [he]
      exact absurd (List.mem_singleton.1 hmem) (by simp)
  | cons c rest ih =>
    rw [piecesFrom]
    split
    · rename_i hcut
      exact (ih s).cons_here (Bool.and_eq_true_iff.1 hcut).1
    · rename_i hgo
      have hstep := ih (s.step counted c)
      cases hpieces : piecesFrom counted separator (s.step counted c) rest with
      | nil => exact absurd hpieces (piecesFrom_ne_nil _ _)
      | cons piece pieces =>
        rw [hpieces] at hstep
        refine hstep.consFirst fun htop hc => hgo ?_
        rw [htop, hc, beq_self_eq_true]
        rfl

/-! ## Scans that go on alike -/

/-- the scans cannot be told apart by what comes next -/
structure Alike (counted : Delimiters) (s t : State) : Prop where
  levels : s.levels = t.levels
  mode : s.mode = t.mode
  previous : .quote .double ∈ counted → (s.previous == some '@') = (t.previous == some '@')

namespace Alike

theorem refl (s : State) : Alike counted s s := ⟨rfl, rfl, fun _ => rfl⟩

theorem atTop (h : Alike counted s t) : s.atTop = t.atTop := by
  rw [State.atTop, State.atTop, State.depth, State.depth, State.inQuotes, State.inQuotes, h.levels, h.mode]

theorem readCode (h : Alike counted s t) (c : Char) :
    (s.readCode counted c).levels = (t.readCode counted c).levels ∧
      (s.readCode counted c).mode = (t.readCode counted c).mode := by
  unfold State.readCode
  split
  · rename_i q _
    split
    · rename_i hq
      refine ⟨h.levels, ?_⟩
      cases q with
      | single => rfl
      | double =>
        have hat := h.previous (List.contains_iff_mem.1 hq)
        simp only [State.openLiteral, hat]
    · exact ⟨h.levels, h.mode⟩
  · split <;> simp only [h.levels, h.mode, and_self]
  · split <;> simp only [h.levels, h.mode, and_self]
  · exact ⟨h.levels, h.mode⟩

theorem step (h : Alike counted s t) (c : Char) : Alike counted (s.step counted c) (t.step counted c) := by
  cases hmode : t.mode with
  | code =>
    obtain ⟨hlevels, hnext⟩ := h.readCode c
    simp only [State.step, hmode, h.mode]
    exact ⟨hlevels, hnext, fun _ => rfl⟩
  | literal q verbatim escaped =>
    have hs := h.mode.trans hmode
    rw [step_literal hs, step_literal hmode, hs, hmode]
    exact ⟨h.levels, rfl, fun _ => rfl⟩

/-- code, and no `@` to remember: the other scan may skip a separator -/
theorem step_separator (hsep : Plain counted separator) (h : Alike counted s t) (hcode : t.mode = .code)
    (hat : .quote .double ∈ counted → separator ≠ '@' ∧ t.previous ≠ some '@') :
    Alike counted s (t.step counted separator) := by
  rw [step_plain hsep hcode]
  refine ⟨h.levels, h.mode, fun hd => ?_⟩
  obtain ⟨hne, hprevious⟩ := hat hd
  rw [h.previous hd]
  simp [hne, hprevious]

end Alike

theorem piecesFrom_eq_cutAt (hsep : Plain counted separator) (h : Alike counted s t)
    (hread : ∀ a b, text = a ++ separator :: b → (t.run counted a).atTop = true →
      (t.run counted a).mode = .code ∧
        (.quote .double ∈ counted → separator ≠ '@' ∧ (t.run counted a).previous ≠ some '@')) :
    piecesFrom counted separator s text = cutAt text (topPlaces counted separator t text) := by
  induction text generalizing s t with
  | nil => rfl
  | cons c rest ih =>
    have hrest : ∀ a b, rest = a ++ separator :: b → ((t.step counted c).run counted a).atTop = true →
        ((t.step counted c).run counted a).mode = .code ∧ (.quote .double ∈ counted →
          separator ≠ '@' ∧ ((t.step counted c).run counted a).previous ≠ some '@') :=
      fun a b he htop => hread (c :: a) b (congrArg (c :: ·) he) htop
    rw [piecesFrom, cutAt_topPlaces_cons, h.atTop]
    split
    · rename_i hcut
      obtain ⟨htop, hc⟩ := Bool.and_eq_true_iff.1 hcut
      obtain rfl := beq_iff_eq.1 hc
      obtain ⟨hcode, hat⟩ := hread [] rest rfl htop
      rw [ih (h.step_separator hsep hcode hat) hrest]
    · rw [ih (h.step c) hrest]

theorem mem_topPlaces {a b : Text} (htop : (s.run counted a).atTop = true) :
    a.length ∈ topPlaces counted separator s (a ++ separator :: b) := by
  simp [topPlaces, htop]

/-- the scan goes on differently behind one of the places, if it reads the separator: in a literal, or next to an `@`
where double marks count -/
def Misread (counted : Delimiters) (separator : Char) (text : Text) : Prop :=
  ∃ i ∈ topPlaces counted separator {} text, (State.run counted {} (text.take i)).inQuotes = true ∨
    .quote .double ∈ counted ∧ (separator = '@' ∨ (text.take i).getLast? = some '@')

instance (counted : Delimiters) (separator : Char) (text : Text) : Decidable (Misread counted separator text) :=
  inferInstanceAs (Decidable (∃ i ∈ topPlaces counted separator {} text, _ ∨ _ ∧ _))

theorem split_of_not_misread (hsep : Plain counted separator) (h : ¬ Misread counted separator text) :
    split counted separator text = tidy (cutAt text (topPlaces counted separator {} text)) := by
  refine congrArg tidy (piecesFrom_eq_cutAt hsep (Alike.refl {}) ?_)
  rintro a b rfl htop
  have hplace : a.length ∈ topPlaces counted separator {} (a ++ separator :: b) := mem_topPlaces htop
  have htake : (a ++ separator :: b).take a.length = a := List.take_left
  refine ⟨?_, fun hd => ⟨fun hat => h ⟨_, hplace, Or.inr ⟨hd, Or.inl hat⟩⟩, fun hat => ?_⟩⟩
  · rw [← inQuotes_eq_false_iff]
    refine Bool.eq_false_iff.2 fun hin => h ⟨_, hplace, Or.inl ?_⟩
    rwa [htake]
  · refine h ⟨_, hplace, Or.inr ⟨hd, Or.inr ?_⟩⟩
    simpa [htake, previous_run] using hat

/-! ## The counted delimiters -/

theorem mode_run (h : ∀ q, .quote q ∉ counted) (hs : s.mode = .code) (a : Text) : (s.run counted a).mode = .code := by
  induction a generalizing s with
  | nil => exact hs
  | cons c a ih =>
    refine ih ?_
    have hnone : ∀ q, counted.contains (.quote q) = false := fun q => by simpa using h q
    have hread : (s.readCode counted c).mode = .code := by
      unfold State.readCode
      split
      · rw [hnone]
        exact hs
      · split <;> exact hs
      · split <;> exact hs
      · exact hs
    unfold State.step
    rw [hs]
    exact hread

/-- no double mark counts, and no bracket where single marks do -/
def SplitsAlike (counted : Delimiters) : Prop :=
  .quote .double ∉ counted ∧ (.quote .single ∈ counted → ∀ b, .bracket b ∉ counted)

theorem SplitsAlike.not_misread (h : SplitsAlike counted) : ¬ Misread counted separator text := by
  obtain ⟨hdouble, hsingle⟩ := h
  rintro ⟨i, hplace, hin | ⟨hd, -⟩⟩
  · have htop := (Bool.and_eq_true_iff.1 (List.mem_filter.1 hplace).2).2
    by_cases hs : .quote .single ∈ counted
    · rw [atTop_eq_not_inQuotes (levels_run (hsingle hs) {} _), hin] at htop
      contradiction
    · have hquote : ∀ q, .quote q ∉ counted := by
        intro q
        cases q with
        | double => exact hdouble
        | single => exact hs
      rw [inQuotes_eq_false_iff.2 (mode_run hquote rfl _)] at hin
      contradiction
  · exact hdouble hd

/-! ## Texts that are cut differently -/

theorem cutAt_topPlaces_nil : cutAt [] (topPlaces counted separator s []) = [[]] := rfl

theorem tidy_ne {pieces others : List Text} (h : ∀ piece ∈ pieces, Text.trim piece ≠ [])
    (hlength : others.length < pieces.length) : tidy pieces ≠ tidy others := by
  intro he
  have hall : tidy pieces = pieces.map Text.trim := by
    refine List.filter_eq_self.2 fun piece hpiece => ?_
    obtain ⟨other, hother, rfl⟩ := List.mem_map.1 hpiece
    simpa using h other hother
  have hle : (tidy others).length ≤ (others.map Text.trim).length := List.length_filter_le _ _
  rw [← he, hall, List.length_map, List.length_map] at hle
  exact absurd hle (Nat.not_le.2 hlength)

/-- as in `@,"\",@`: a split still has the `@` in mind and reads a verbatim literal, which ends -/
theorem split_ne_verbatim (hd : .quote .double ∈ counted) (hsep : Plain counted separator) (hat : separator ≠ '@') :
    let text := ['@', separator, '"', '\\', '"', separator, '@']
    split counted separator text ≠ tidy (cutAt text (topPlaces counted separator {} text)) := by
  intro text
  have hmark : ∀ s : State, s.readCode counted '"' = s.openLiteral .double := readCode_mark (q := .double) hd
  have hskip : ∀ s : State, s.readCode counted separator = s := hsep
  have hplain : ∀ s : State, s.readCode counted '@' = s := fun s => rfl
  have hquote : separator ≠ '"' := hsep.ne.1 .double hd
  have hregular : (separator == '@') = false := beq_eq_false_iff_ne.2 hat
  have hsplit : piecesFrom counted separator {} text = [['@'], ['"', '\\', '"'], ['@']] := by
    simp [text, piecesFrom, State.step, State.atTop, State.depth, State.inQuotes, Levels.total, State.openLiteral,
      Mode.advance, Text.consFirst, Quote.mark, hmark, hplain, hat.symm, hquote.symm]
  have hsearch : cutAt text (topPlaces counted separator {} text) = [['@'], ['"', '\\', '"', separator, '@']] := by
    simp [text, cutAt_topPlaces_cons, cutAt_topPlaces_nil, State.step, State.atTop, State.depth, State.inQuotes,
      Levels.total, State.openLiteral, Mode.advance, Text.consFirst, Quote.mark, hmark, hplain, hskip, hregular,
      hat.symm, hquote.symm]
  rw [split, hsearch, hsplit]
  exact tidy_ne (by decide) (by simp)

/-- `x@"\"@x` at the `@`: a split has not read it and takes the literal for a regular one, which does not end -/
theorem split_ne_at (hd : .quote .double ∈ counted) :
    let text := ['x', '@', '"', '\\', '"', '@', 'x']
    split counted '@' text ≠ tidy (cutAt text (topPlaces counted '@' {} text)) := by
  intro text
  have hmark : ∀ s : State, s.readCode counted '"' = s.openLiteral .double := readCode_mark (q := .double) hd
  have hplain : ∀ s : State, s.readCode counted 'x' = s := fun s => rfl
  have hskip : ∀ s : State, s.readCode counted '@' = s := fun s => rfl
  have hsplit : piecesFrom counted '@' {} text = [['x'], ['"', '\\', '"', '@', 'x']] := by
    simp [text, piecesFrom, State.step, State.atTop, State.depth, State.inQuotes, Levels.total, State.openLiteral,
      Mode.advance, Text.consFirst, Quote.mark, hmark, hplain]
  have hsearch : cutAt text (topPlaces counted '@' {} text) = [['x'], ['"', '\\', '"'], ['x']] := by
    simp [text, cutAt_topPlaces_cons, cutAt_topPlaces_nil, State.step, State.atTop, State.depth, State.inQuotes,
      Levels.total, State.openLiteral, Mode.advance, Text.consFirst, Quote.mark, hmark, hplain, hskip]
  rw [split, hsearch, hsplit]
  exact (tidy_ne (by decide) (by simp)).symm

section Brackets

variable {b : Bracket} (hq : .quote .single ∈ counted) (hb : .bracket b ∈ counted)
include hq hb

/-- as in `)'\,','`: behind a bracket that opens nowhere the literal is at the top level, and to a split it is not the
separator that is escaped but the mark -/
theorem split_ne_escaped (hsep : Plain counted separator) (hslash : separator ≠ '\\') :
    let text := [b.closing, '\'', '\\', separator, '\'', separator, '\'']
    split counted separator text ≠ tidy (cutAt text (topPlaces counted separator {} text)) := by
  intro text
  have hmark : ∀ s : State, s.readCode counted '\'' = s.openLiteral .single := readCode_mark (q := .single) hq
  have hclosing := readCode_closing hb
  have hskip : ∀ s : State, s.readCode counted separator = s := hsep
  have hquote : separator ≠ '\'' := hsep.ne.1 .single hq
  have hbracket : separator ≠ b.closing := (hsep.ne.2 b hb).2
  have hzero : ({} : Levels).total = 0 := rfl
  have hsingle : (Quote.single == Quote.double) = false := rfl
  have hsplit : piecesFrom counted separator {} text = [[b.closing, '\'', '\\'], ['\''], ['\'']] := by
    simp [text, piecesFrom, State.step, State.atTop, State.depth, State.inQuotes, State.openLiteral, Mode.advance,
      Text.consFirst, Quote.mark, hmark, hclosing, hquote.symm, hbracket.symm, hslash.symm, hzero, hsingle]
  have hsearch : cutAt text (topPlaces counted separator {} text) =
      [[b.closing, '\'', '\\'], ['\'', separator, '\'']] := by
    simp [text, cutAt_topPlaces_cons, cutAt_topPlaces_nil, State.step, State.atTop, State.depth, State.inQuotes,
      State.openLiteral, Mode.advance, Text.consFirst, Quote.mark, hmark, hclosing, hquote.symm, hbracket.symm,
      hslash.symm, hskip, hzero, hsingle]
  rw [split, hsearch, hsplit]
  exact tidy_ne (by cases b <;> decide) (by simp)

/-- as in `)'\'\'` at the backslash, which escapes nothing in a split -/
theorem split_ne_backslash :
    let text := [b.closing, '\'', '\\', '\'', '\\', '\'']
    split counted '\\' text ≠ tidy (cutAt text (topPlaces counted '\\' {} text)) := by
  intro text
  have hmark : ∀ s : State, s.readCode counted '\'' = s.openLiteral .single := readCode_mark (q := .single) hq
  have hclosing := readCode_closing hb
  have hskip : ∀ s : State, s.readCode counted '\\' = s := fun s => rfl
  have hbracket : b.closing ≠ '\\' := by cases b <;> decide
  have hzero : ({} : Levels).total = 0 := rfl
  have hsingle : (Quote.single == Quote.double) = false := rfl
  have hsplit : piecesFrom counted '\\' {} text = [[b.closing, '\''], ['\'', '\\', '\'']] := by
    simp [text, piecesFrom, State.step, State.atTop, State.depth, State.inQuotes, State.openLiteral, Mode.advance,
      Text.consFirst, Quote.mark, hmark, hclosing, hbracket, hskip, hzero, hsingle]
  have hsearch : cutAt text (topPlaces counted '\\' {} text) = [[b.closing, '\''], ['\''], ['\'']] := by
    simp [text, cutAt_topPlaces_cons, cutAt_topPlaces_nil, State.step, State.atTop, State.depth, State.inQuotes,
      State.openLiteral, Mode.advance, Text.consFirst, Quote.mark, hmark, hclosing, hbracket, hzero, hsingle]
  rw [split, hsearch, hsplit]
  exact (tidy_ne (by cases b <;> decide) (by simp)).symm

end Brackets

theorem exists_split_ne (hsep : Plain counted separator) (h : ¬ SplitsAlike counted) :
    ∃ text, split counted separator text ≠ tidy (cutAt text (topPlaces counted separator {} text)) := by
  by_cases hd : .quote .double ∈ counted
  · by_cases hat : separator = '@'
    · subst hat
      exact ⟨_, split_ne_at hd⟩
    · exact ⟨_, split_ne_verbatim hd hsep hat⟩
  · obtain ⟨hq, b, hb⟩ : .quote .single ∈ counted ∧ ∃ b, .bracket b ∈ counted := by
      by_contra hnone
      refine h ⟨hd, fun hq b hb => hnone ⟨hq, b, hb⟩⟩
    by_cases hslash : separator = '\\'
    · subst hslash
      exact ⟨_, split_ne_backslash hq hb⟩
    · exact ⟨_, split_ne_escaped hq hb hsep hslash⟩

/-- **Where a split cuts.** It cuts where a scan of the pieces before, without the separators between them, is at the top
level; a search finds the first place where a scan of all the text before is. Where no separator is misread the split
cuts at exactly these places, and it does so in every text exactly if double marks do not count, and brackets not
together with single marks. -/
theorem split_topPlaces (hsep : Plain Delimiters.all separator) (counted : Delimiters) :
    (∀ text, ∃ pieces, [separator].intercalate pieces = text ∧ IsCut counted separator {} pieces ∧
      split counted separator text = tidy pieces) ∧
    (∀ text, offsetWhere? counted (· == separator) text 0 =
      (topPlaces counted separator {} text).head?.map fun i => Text.byteLength (text.take i)) ∧
    (∀ text, ¬ Misread counted separator text →
      split counted separator text = tidy (cutAt text (topPlaces counted separator {} text))) ∧
    ((∀ text, split counted separator text = tidy (cutAt text (topPlaces counted separator {} text))) ↔
      SplitsAlike counted) := by
  have hplain : Plain counted separator := hsep.mono (Delimiters.subset_all counted)
  refine ⟨fun text => ?_, offsetWhere?_topPlaces counted separator, fun text => split_of_not_misread hplain, ?_, ?_⟩
  · exact ⟨_, intercalate_piecesFrom {} text, isCut_piecesFrom {} text, rfl⟩
  · intro hsame
    by_contra hcounted
    obtain ⟨text, hne⟩ := exists_split_ne hplain hcounted
    exact hne (hsame text)
  · exact fun hcounted text => split_of_not_misread hplain hcounted.not_misread

/-- `@a,"b,c",d`, where no separator is next to the `@` -/
theorem split_topPlaces_literal :
    let text : Text := ['@', 'a', ',', '"', 'b', ',', 'c', '"', ',', 'd']
    Plain Delimiters.all ',' ∧ ¬ Misread Delimiters.double ',' text ∧
      split Delimiters.double ',' text = tidy (cutAt text (topPlaces Delimiters.double ',' {} text)) := by
  intro text
  have hsep : Plain Delimiters.all ',' := plain_comma _
  have hread : ¬ Misread Delimiters.double ',' text := by decide
  exact ⟨hsep, hread, (split_topPlaces hsep Delimiters.double).2.2.1 text hread⟩

/-- in `@,"\",x` a split cuts at the second comma, which stands in a literal -/
theorem split_inside_literal :
    ¬ ∀ (counted : Delimiters) (separator : Char) (text : Text), Plain Delimiters.all separator →
      split counted separator text = tidy (cutAt text (topPlaces counted separator {} text)) := by
  intro h
  have hsplit := h Delimiters.double ',' ['@', ',', '"', '\\', '"', ',', 'x'] (plain_comma _)
  exact absurd hsplit (by decide)

end ClassAtlas.Nesting
