/-
Verbatim literals, and what a scan makes of them.

A verbatim literal is an `@` and a body in double marks, with every mark of the body written twice. A scan takes such a
pair for the end of one literal and the start of another. The other one has no `@` before it, so a backslash escapes in
it, and a mark behind an odd number of backslashes does not end it. From there on the scan is outside literals where it
should be inside (`Strayed`), and the mark at the end of the literal opens one.

So a scan is outside literals behind a verbatim literal exactly if no mark behind the first pair is escaped
(`inQuotes_verbatimLiteral_iff`).
-/
import Mathlib.Data.List.Induction
import Mathlib.Tactic.Push
import ClassAtlas.Proofs.Literal.Scan

namespace ClassAtlas.Nesting

/-! ## Writing -/

/-- every double mark written twice -/
def doubled (body : Text) : Text := body.flatMap fun c => if c = '"' then ['"', '"'] else [c]

/-- the verbatim literal with this body -/
def verbatimLiteral (body : Text) : Text := '@' :: '"' :: (doubled body ++ ['"'])

/-- how many backslashes stand at the end -/
def trailingBackslashes (s : Text) : Nat := (s.reverse.takeWhile (· == '\\')).length

/-- behind the first mark, an even number of backslashes stands before every mark and before the end -/
def NoMarkEscaped (body : Text) : Prop := ∀ part ∈ (body.splitOn '"').tail, trailingBackslashes part % 2 = 0

instance (body : Text) : Decidable (NoMarkEscaped body) :=
  inferInstanceAs (Decidable (∀ part ∈ (body.splitOn '"').tail, trailingBackslashes part % 2 = 0))

theorem doubled_append (a b : Text) : doubled (a ++ b) = doubled a ++ doubled b := List.flatMap_append

theorem doubled_eq_self {part : Text} (h : '"' ∉ part) : doubled part = part := by
  induction part with
  | nil => rfl
  | cons c part ih =>
    have hc : c ≠ '"' := fun he => h (he ▸ List.mem_cons_self)
    have hrest := ih fun hm => h (List.mem_cons_of_mem c hm)
    rw [doubled, List.flatMap_cons, if_neg hc, List.singleton_append, ← doubled, hrest]

theorem mem_doubled {c : Char} {body : Text} (h : c ∈ doubled body) : c = '"' ∨ c ∈ body := by
  obtain ⟨d, hd, hc⟩ := List.mem_flatMap.1 h
  split at hc
  · exact Or.inl (by simpa using hc)
  · exact Or.inr (List.mem_singleton.1 hc ▸ hd)

theorem trailingBackslashes_concat (s : Text) (c : Char) :
    trailingBackslashes (s ++ [c]) = if c = '\\' then trailingBackslashes s + 1 else 0 := by
  rw [trailingBackslashes, List.reverse_append, List.reverse_singleton, List.singleton_append, List.takeWhile_cons]
  by_cases hc : c = '\\'
  · simp [hc, trailingBackslashes]
  · simp [hc]

/-- the body by its marks -/
theorem exists_parts (body : Text) : ∃ first others, body.splitOn '"' = first :: others ∧
    (∀ part ∈ first :: others, '"' ∉ part) ∧ body = first ++ others.flatMap ('"' :: ·) := by
  induction body with
  | nil => exact ⟨[], [], rfl, by simp, rfl⟩
  | cons c body ih =>
    obtain ⟨first, others, hsplit, hmarks, hbody⟩ := ih
    rw [List.splitOn_cons_eq_if_modifyHead, hsplit]
    by_cases hc : c = '"'
    · refine ⟨[], first :: others, by simp [hc], ?_, ?_⟩
      · exact List.forall_mem_cons.2 ⟨List.not_mem_nil, hmarks⟩
      · rw [hc, List.nil_append, List.flatMap_cons, List.cons_append, ← hbody]
    · obtain ⟨hfirst, hothers⟩ := List.forall_mem_cons.1 hmarks
      refine ⟨c :: first, others, by simp [hc], ?_, ?_⟩
      · refine List.forall_mem_cons.2 ⟨fun hm => ?_, hothers⟩
        rcases List.mem_cons.1 hm with he | hm
        · exact hc he.symm
        · exact hfirst hm
      · rw [List.cons_append, ← hbody]

/-- the pairs with the parts behind them, and the mark at the end -/
def pairsText (parts : List Text) : Text := parts.flatMap (fun part => '"' :: '"' :: part) ++ ['"']

theorem pairsText_cons (part : Text) (parts : List Text) :
    pairsText (part :: parts) = '"' :: '"' :: (part ++ pairsText parts) := by
  simp [pairsText]

theorem doubled_parts {first : Text} {others : List Text} (h : ∀ part ∈ first :: others, '"' ∉ part) :
    doubled (first ++ others.flatMap ('"' :: ·)) ++ ['"'] = first ++ pairsText others := by
  obtain ⟨hfirst, hothers⟩ := List.forall_mem_cons.1 h
  rw [doubled_append, doubled_eq_self hfirst, List.append_assoc]
  congr 1
  induction others with
  | nil => rfl
  | cons part others ih =>
    obtain ⟨hpart, hrest⟩ := List.forall_mem_cons.1 hothers
    have hmark : doubled ('"' :: part) = '"' :: '"' :: part := by
      rw [← List.singleton_append, doubled_append, doubled_eq_self hpart]
      rfl
    rw [List.flatMap_cons, doubled_append, hmark, pairsText_cons, ← ih (List.forall_mem_cons.2 ⟨hfirst, hrest⟩) hrest]
    simp

/-! ## Inside a literal in double marks -/

section Scan

variable {counted : Delimiters} {s : State} {levels : Levels} {verbatim : Bool}

namespace InLiteral

/-- a pair of marks ends the literal and opens another one, which is not verbatim -/
theorem pair (hd : .quote .double ∈ counted) (h : InLiteral .double levels verbatim false s) :
    InLiteral .double levels false false (s.run counted ['"', '"']) := by
  obtain ⟨hmode, hlevels⟩ := h.close counted
  have hopen := InLiteral.of_code (q := .double) hd hmode
  rw [hlevels] at hopen
  exact hopen

theorem run_verbatim (counted : Delimiters) {part : Text} (hq : '"' ∉ part) (h : InLiteral .double levels true false s) :
    InLiteral .double levels true false (s.run counted part) := by
  induction part generalizing s with
  | nil => exact h
  | cons c part ih =>
    have hc : c ≠ '"' := fun he => hq (he ▸ List.mem_cons_self)
    have hstep := h.step_inside counted hc
    rw [Bool.not_true, Bool.and_false, Bool.false_and] at hstep
    exact ih (fun hm => hq (List.mem_cons_of_mem c hm)) hstep

/-- the end of the part is escaped if an odd number of backslashes stands there -/
theorem run_regular (counted : Delimiters) {part : Text} (hq : '"' ∉ part) (h : InLiteral .double levels false false s) :
    InLiteral .double levels false (trailingBackslashes part % 2 == 1) (s.run counted part) := by
  induction part using List.reverseRecOn with
  | nil => exact h
  | append_singleton part c ih =>
    have hc : c ≠ '"' := fun he => hq (by simp [he])
    have hpart := ih fun hm => hq (List.mem_append_left [c] hm)
    have hstep := hpart.step_inside counted hc
    have hparity : (trailingBackslashes (part ++ [c]) % 2 == 1) =
        (c == '\\' && !false && !(trailingBackslashes part % 2 == 1)) := by
      rw [trailingBackslashes_concat]
      by_cases hb : c = '\\'
      · rw [if_pos hb, hb, Bool.eq_iff_iff]
        simp
        omega
      · rw [if_neg hb]
        simp [hb]
    rw [State.run_append, hparity]
    exact hstep

end InLiteral

/-! ## Outside a literal where one should be -/

/-- the scan stands in code or in a literal in single marks -/
def Strayed (s : State) : Prop := s.mode = .code ∨ ∃ verbatim escaped, s.mode = .literal .single verbatim escaped

namespace Strayed

theorem readCode (counted : Delimiters) (hs : s.mode = .code) {c : Char} (hc : c ≠ '"') :
    Strayed (s.readCode counted c) := by
  unfold State.readCode
  split
  · rename_i q hq
    have hmark : q.mark = c := by simpa using List.find?_some hq
    cases q with
    | double => exact absurd hmark.symm hc
    | single =>
      split
      · exact Or.inr ⟨_, _, rfl⟩
      · exact Or.inl hs
  · split <;> exact Or.inl hs
  · split <;> exact Or.inl hs
  · exact Or.inl hs

theorem step_single {escaped : Bool} (hs : s.mode = .literal .single verbatim escaped) (c : Char) :
    Strayed (s.step counted c) := by
  rw [step_literal hs, hs]
  cases escaped with
  | true => exact Or.inr ⟨_, _, rfl⟩
  | false =>
    by_cases hc : c = Quote.single.mark
    · exact Or.inl (if_pos hc)
    · exact Or.inr ⟨_, _, if_neg hc⟩

/-- a double mark means nothing in a literal in single marks -/
theorem mark_single (counted : Delimiters) {escaped : Bool} (hs : s.mode = .literal .single verbatim escaped) :
    ∃ verbatim escaped, (s.step counted '"').mode = .literal .single verbatim escaped := by
  rw [step_literal hs, hs]
  cases escaped <;> exact ⟨_, _, rfl⟩

theorem step (h : Strayed s) {c : Char} (hc : c ≠ '"') : Strayed (s.step counted c) := by
  rcases h with hs | ⟨verbatim, escaped, hs⟩
  · have hread := readCode counted hs hc
    unfold State.step
    rw [hs]
    exact hread
  · exact step_single hs c

/-- a pair is taken for an empty literal -/
theorem pair (hd : .quote .double ∈ counted) (h : Strayed s) : Strayed (s.run counted ['"', '"']) := by
  rcases h with hs | ⟨verbatim, escaped, hs⟩
  · exact Or.inl ((InLiteral.of_code (q := .double) hd hs).close counted).1
  · obtain ⟨_, _, hmark⟩ := mark_single counted hs
    exact Or.inr (mark_single counted hmark)

theorem run_doubled (hd : .quote .double ∈ counted) (h : Strayed s) (text : Text) :
    Strayed (s.run counted (doubled text)) := by
  induction text generalizing s with
  | nil => exact h
  | cons c text ih =>
    rw [doubled, List.flatMap_cons, ← doubled, State.run_append]
    split
    · exact ih (h.pair hd)
    · rename_i hc
      exact ih (h.step hc)

/-- the mark that should end the literal opens one, or stands in one -/
theorem inQuotes_mark (hd : .quote .double ∈ counted) (h : Strayed s) : (s.step counted '"').inQuotes = true := by
  rcases h with hs | ⟨verbatim, escaped, hs⟩
  · exact (InLiteral.of_code (q := .double) hd hs).inQuotes
  · obtain ⟨_, _, hmark⟩ := mark_single counted hs
    rw [State.inQuotes, hmark]
    rfl

theorem inQuotes_run (hd : .quote .double ∈ counted) (h : Strayed s) (text : Text) :
    (s.run counted (doubled text ++ ['"'])).inQuotes = true := by
  rw [State.run_append]
  exact (h.run_doubled hd text).inQuotes_mark hd

end Strayed

/-! ## The whole literal -/

/-- in code the scan reads nothing but the marks of a verbatim literal -/
def ReadsMarks (counted : Delimiters) : State → Text → Prop
  | _, [] => True
  | s, c :: rest => (s.inQuotes = false → c = '@' ∨ c = '"') ∧ ReadsMarks counted (s.step counted c) rest

theorem readsMarks_append {a b : Text} (ha : ReadsMarks counted s a) (hb : ReadsMarks counted (s.run counted a) b) :
    ReadsMarks counted s (a ++ b) := by
  induction a generalizing s with
  | nil => exact hb
  | cons c a ih => exact ⟨ha.1, ih ha.2 hb⟩

theorem InLiteral.readsMarks {escaped : Bool} {part : Text} (hq : '"' ∉ part)
    (h : InLiteral .double levels verbatim escaped s) : ReadsMarks counted s part := by
  induction part generalizing s escaped with
  | nil => trivial
  | cons c part ih =>
    have hc : c ≠ '"' := fun he => hq (he ▸ List.mem_cons_self)
    refine ⟨fun hout => ?_, ih (fun hm => hq (List.mem_cons_of_mem c hm)) (h.step_inside counted hc)⟩
    rw [h.inQuotes] at hout
    contradiction

/-- a scan from this state leaves the text as it came to a verbatim literal -/
structure Skips (counted : Delimiters) (levels : Levels) (s : State) (text : Text) : Prop where
  marks : ReadsMarks counted s text
  code : (s.run counted text).mode = .code
  levels : (s.run counted text).levels = levels

theorem InLiteral.skips (hd : .quote .double ∈ counted) {parts : List Text} (hq : ∀ part ∈ parts, '"' ∉ part)
    (he : ∀ part ∈ parts, trailingBackslashes part % 2 = 0) (h : InLiteral .double levels verbatim false s) :
    Skips counted levels s (pairsText parts) := by
  induction parts generalizing s verbatim with
  | nil =>
    obtain ⟨hcode, hlevels⟩ := h.close counted
    exact ⟨⟨fun _ => Or.inr rfl, trivial⟩, hcode, hlevels⟩
  | cons part parts ih =>
    obtain ⟨hpart, hparts⟩ := List.forall_mem_cons.1 hq
    obtain ⟨heven, hevens⟩ := List.forall_mem_cons.1 he
    have hpair := h.pair hd
    have hrun := hpair.run_regular counted hpart
    rw [heven] at hrun
    obtain ⟨hmarks, hcode, hlevels⟩ := ih hparts hevens hrun
    rw [← State.run_append, ← State.run_append] at hcode hlevels
    rw [pairsText_cons]
    refine ⟨⟨fun _ => Or.inr rfl, fun _ => Or.inr rfl, ?_⟩, hcode, hlevels⟩
    exact readsMarks_append (hpair.readsMarks hpart) hmarks

/-- the scan strays where a mark is escaped, and is in a literal at the end -/
theorem InLiteral.strays (hd : .quote .double ∈ counted) {parts : List Text} (hq : ∀ part ∈ parts, '"' ∉ part)
    (ho : ∃ part ∈ parts, trailingBackslashes part % 2 ≠ 0) (h : InLiteral .double levels verbatim false s) :
    (s.run counted (pairsText parts)).inQuotes = true := by
  induction parts generalizing s verbatim with
  | nil =>
    obtain ⟨part, hpart, -⟩ := ho
    exact absurd hpart List.not_mem_nil
  | cons part parts ih =>
    obtain ⟨hpart, hparts⟩ := List.forall_mem_cons.1 hq
    have hrun := (h.pair hd).run_regular counted hpart
    rw [← State.run_append] at hrun
    have htext : pairsText (part :: parts) = (['"', '"'] ++ part) ++ pairsText parts := by
      rw [pairsText_cons, List.append_assoc]
      rfl
    rw [htext, State.run_append]
    rcases Nat.mod_two_eq_zero_or_one (trailingBackslashes part) with heven | hodd
    · rw [heven] at hrun
      refine ih hparts ?_ hrun
      obtain ⟨other, hother, hne⟩ := ho
      rcases List.mem_cons.1 hother with rfl | hother
      · exact absurd heven hne
      · exact ⟨other, hother, hne⟩
    · -- the next mark is escaped: the one behind it ends the literal, or the text ends inside it
      rw [hodd] at hrun
      have hmark := hrun.step_escaped counted '"'
      cases parts with
      | nil => exact hmark.inQuotes
      | cons next parts =>
        have hcode : Strayed _ := Or.inl (hmark.close counted).1
        have hstray := Strayed.inQuotes_run hd hcode (next ++ parts.flatMap ('"' :: ·))
        rw [doubled_parts hparts] at hstray
        rw [pairsText_cons]
        exact hstray

/-- the literal by the marks of its body -/
theorem verbatimLiteral_parts (body : Text) : ∃ first others, (∀ part ∈ first :: others, '"' ∉ part) ∧
    verbatimLiteral body = ('@' :: '"' :: first) ++ pairsText others ∧
    (NoMarkEscaped body ↔ ∀ part ∈ others, trailingBackslashes part % 2 = 0) := by
  obtain ⟨first, others, hsplit, hmarks, hbody⟩ := exists_parts body
  refine ⟨first, others, hmarks, ?_, ?_⟩
  · rw [verbatimLiteral, hbody, doubled_parts hmarks]
    rfl
  · rw [NoMarkEscaped, hsplit, List.tail_cons]

/-- up to the first mark of the body the scan reads a verbatim literal -/
theorem inLiteral_first (hd : .quote .double ∈ counted) (hs : s.mode = .code) {first : Text} (hq : '"' ∉ first) :
    ReadsMarks counted s ('@' :: '"' :: first) ∧
      InLiteral .double s.levels true false (s.run counted ('@' :: '"' :: first)) := by
  have hat : Plain counted '@' := fun _ => rfl
  have hopen : InLiteral .double s.levels true false ((s.step counted '@').step counted '"') := by
    rw [step_plain hat hs]
    exact InLiteral.of_code (q := .double) (s := { s with previous := some '@' }) hd hs
  have hinside := hopen.run_verbatim counted hq
  exact ⟨⟨fun _ => Or.inl rfl, fun _ => Or.inr rfl, hopen.readsMarks hq⟩, hinside⟩

theorem skips_verbatimLiteral (hd : .quote .double ∈ counted) (hs : s.mode = .code) {body : Text}
    (h : NoMarkEscaped body) : Skips counted s.levels s (verbatimLiteral body) := by
  obtain ⟨first, others, hmarks, htext, heven⟩ := verbatimLiteral_parts body
  obtain ⟨hfirst, hothers⟩ := List.forall_mem_cons.1 hmarks
  obtain ⟨hread, hinside⟩ := inLiteral_first hd hs hfirst
  obtain ⟨hrest, hcode, hlevels⟩ := hinside.skips hd hothers (heven.1 h)
  rw [← State.run_append] at hcode hlevels
  rw [htext]
  exact ⟨readsMarks_append hread hrest, hcode, hlevels⟩

theorem inQuotes_verbatimLiteral (hd : .quote .double ∈ counted) (hs : s.mode = .code) {body : Text}
    (h : ¬ NoMarkEscaped body) : (s.run counted (verbatimLiteral body)).inQuotes = true := by
  obtain ⟨first, others, hmarks, htext, heven⟩ := verbatimLiteral_parts body
  obtain ⟨hfirst, hothers⟩ := List.forall_mem_cons.1 hmarks
  rw [htext, State.run_append]
  refine (inLiteral_first hd hs hfirst).2.strays hd hothers ?_
  rw [heven] at h
  push Not at h
  exact h

/-- **a scan of code is outside literals after a verbatim literal exactly if no mark of it is escaped** -/
theorem inQuotes_verbatimLiteral_iff (hd : .quote .double ∈ counted) (hs : s.mode = .code) (body : Text) :
    (s.run counted (verbatimLiteral body)).inQuotes = false ↔ NoMarkEscaped body := by
  refine ⟨fun hout => ?_, fun h => inQuotes_eq_false_iff.2 (skips_verbatimLiteral hd hs h).code⟩
  by_contra h
  rw [inQuotes_verbatimLiteral hd hs h] at hout
  contradiction

end Scan

/-! ## Searches -/

/-- a search for what no mark starts goes on behind a verbatim literal -/
theorem cutFrom_marks {test : Text → Bool} {s : State} {a b : Text} (hl : s.levels = {})
    (h : ReadsMarks Delimiters.literals s a) (ht : ∀ c rest, c = '@' ∨ c = '"' → test (c :: rest) = false) :
    cutFrom Delimiters.literals test s (a ++ b) =
      (cutFrom Delimiters.literals test (s.run Delimiters.literals a) b).map fun p => (a ++ p.1, p.2) := by
  induction a generalizing s with
  | nil => simp
  | cons c a ih =>
    have hnot : ¬ (s.atTop && test (c :: (a ++ b))) = true := by
      rw [atTop_eq_not_inQuotes hl]
      intro hc
      obtain ⟨hout, hpass⟩ := Bool.and_eq_true_iff.1 hc
      rw [ht c _ (h.1 (by simpa using hout))] at hpass
      contradiction
    have hrest := ih ((levels_step_literals s c).trans hl) h.2
    rw [List.cons_append, cutFrom, if_neg hnot, hrest, Option.map_map]
    rfl

end ClassAtlas.Nesting
