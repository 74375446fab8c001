/-
Names and type expressions where a pattern looks for them.

A run of characters ends where a character stands that does not belong to it (`Stops`). On a name or a type that ends so
each pattern has one match, or a best one that takes exactly the name or the type.
-/
import Mathlib.Tactic.Tauto
import ClassAtlas.Proofs.Pattern
import ClassAtlas.Proofs.Text

namespace ClassAtlas.Pattern

/-! ## Runs -/

/-- no run of such characters reaches into the text -/
def Stops (test : Char → Bool) (s : Text) : Prop := ∀ c ∈ s.head?, test c = false

theorem stops_nil (test : Char → Bool) : Stops test [] := fun c hc => absurd hc (Option.not_mem_none c)

theorem stops_cons {test : Char → Bool} {c : Char} (h : test c = false) (s : Text) : Stops test (c :: s) := by
  rintro d hd
  obtain rfl := Option.mem_some.1 hd
  exact h

theorem stops_iff {test : Char → Bool} {s : Text} : Stops test s ↔ s.head?.any test = false := by
  cases s with
  | nil => simp [Stops]
  | cons c s => simp [Stops]

theorem Stops.takeWhile {test : Char → Bool} {s : Text} (h : Stops test s) : s.takeWhile test = [] := by
  cases s with
  | nil => rfl
  | cons c s => exact List.takeWhile_cons_of_neg (by simp [h c rfl])

theorem Stops.dropWhile {test : Char → Bool} {s : Text} (h : Stops test s) : s.dropWhile test = s := by
  cases s with
  | nil => rfl
  | cons c s => exact List.dropWhile_cons_of_neg (by simp [h c rfl])

theorem Stops.take {test : Char → Bool} {s : Text} (h : Stops test s) (n : Nat) : Stops test (s.take n) := by
  cases n with
  | zero => exact stops_nil test
  | succ n =>
    cases s with
    | nil => exact h
    | cons c s => exact stops_cons (h c rfl) _

/-- a run and what follows it can be told apart -/
theorem run_inj {test : Char → Bool} {a b a' b' : Text} (ha : ∀ c ∈ a, test c = true) (hb : Stops test b)
    (ha' : ∀ c ∈ a', test c = true) (hb' : Stops test b') (h : a ++ b = a' ++ b') : a = a' ∧ b = b' := by
  have hrun : ∀ {a b : Text}, (∀ c ∈ a, test c = true) → Stops test b → (a ++ b).takeWhile test = a := by
    intro a b ha hb
    rw [List.takeWhile_append_of_pos ha, hb.takeWhile, List.append_nil]
  obtain rfl : a = a' := by rw [← hrun ha hb, h, hrun ha' hb']
  exact ⟨rfl, List.append_cancel_left h⟩

theorem span_append {test : Char → Bool} {least most : Nat} {a b : Text} (ha : ∀ c ∈ a, test c = true)
    (hb : Stops test b) (hleast : least ≤ a.length) (hmost : a.length ≤ most) :
    span test least most (a ++ b) = [⟨(), a, b⟩] := by
  have hrun : ((a ++ b).take most).takeWhile test = a := by
    rw [List.take_append, List.take_of_length_le hmost, List.takeWhile_append_of_pos ha, (hb.take _).takeWhile,
      List.append_nil]
  simp only [span, hrun, if_neg (Nat.not_lt.2 hleast), List.drop_left]

theorem spanAll_append {test : Char → Bool} {least : Nat} {a b : Text} (ha : ∀ c ∈ a, test c = true)
    (hb : Stops test b) (hleast : least ≤ a.length) : spanAll test least (a ++ b) = [⟨(), a, b⟩] := by
  have hrun : (a ++ b).takeWhile test = a := by
    rw [List.takeWhile_append_of_pos ha, hb.takeWhile, List.append_nil]
  simp only [spanAll, hrun, if_neg (Nat.not_lt.2 hleast), List.drop_left]

theorem satisfy_eq_nil {test : Char → Bool} {s : Text} (h : Stops test s) : satisfy test s = [] := by
  cases s with
  | nil => rfl
  | cons c s => simp [satisfy, h c rfl]

theorem satisfy_cons {test : Char → Bool} {c : Char} (h : test c = true) (s : Text) :
    satisfy test (c :: s) = [⟨(), [c], s⟩] := by
  simp [satisfy, h]

theorem char_eq_nil {c d : Char} (h : d ≠ c) (s : Text) : char c (d :: s) = [] :=
  satisfy_eq_nil (stops_cons (by simpa using h) s)

theorem char_cons (c : Char) (s : Text) : char c (c :: s) = [⟨(), [c], s⟩] :=
  satisfy_cons (by simp) s

theorem blanks_eq {s : Text} (h : Stops Text.isBlank s) : blanks s = [⟨(), [], s⟩] :=
  spanAll_append (a := []) (by simp) h (Nat.zero_le _)

theorem someBlanks_eq_nil {s : Text} (h : Stops Text.isBlank s) : someBlanks s = [] := by
  simp [someBlanks, spanAll, h.takeWhile]

theorem someBlanks_append {gap s : Text} (hgap : ∀ c ∈ gap, Text.isBlank c = true) (hne : gap ≠ [])
    (h : Stops Text.isBlank s) : someBlanks (gap ++ s) = [⟨(), gap, s⟩] :=
  spanAll_append hgap h (List.length_pos_iff.2 hne)

theorem someBlanks_space {s : Text} (h : Stops Text.isBlank s) : someBlanks (' ' :: s) = [⟨(), [' '], s⟩] := by
  have hgap : ∀ c ∈ [' '], Text.isBlank c = true := by decide
  exact someBlanks_append hgap (List.cons_ne_nil _ _) h

theorem first?_literal (w s : Text) : (literal w).first? (w ++ s) = some ⟨(), w, s⟩ := by
  simp [first?, literal]

/-! ## Names -/

/-- a text that starts as a name does and goes on with such characters -/
def IsRun (test : Char → Bool) (s : Text) : Prop :=
  ∃ c rest, s = c :: rest ∧ isNameStart c = true ∧ ∀ d ∈ rest, test d = true

theorem isRun_cons_iff {test : Char → Bool} {c : Char} {rest : Text} :
    IsRun test (c :: rest) ↔ isNameStart c = true ∧ ∀ d ∈ rest, test d = true := by
  constructor
  · rintro ⟨_, _, he, hc, hrest⟩
    obtain ⟨rfl, rfl⟩ := List.cons_eq_cons.1 he
    exact ⟨hc, hrest⟩
  · rintro ⟨hc, hrest⟩
    exact ⟨c, rest, rfl, hc, hrest⟩

instance (test : Char → Bool) : DecidablePred (IsRun test)
  | [] => isFalse fun ⟨_, _, h, _⟩ => List.cons_ne_nil _ _ h.symm
  | _ :: _ => decidable_of_iff' _ isRun_cons_iff

theorem IsRun.ne_nil {test : Char → Bool} {s : Text} (h : IsRun test s) : s ≠ [] := by
  obtain ⟨c, rest, rfl, -, -⟩ := h
  exact List.cons_ne_nil c rest

theorem IsRun.forall_mem {test : Char → Bool} {s : Text} (h : IsRun test s)
    (hstart : ∀ c, isNameStart c = true → test c = true) : ∀ c ∈ s, test c = true := by
  obtain ⟨c, rest, rfl, hc, hrest⟩ := h
  exact List.forall_mem_cons.2 ⟨hstart c hc, hrest⟩

theorem IsRun.nameChars {s : Text} (h : IsRun isNameChar s) : ∀ c ∈ s, isNameChar c = true :=
  h.forall_mem fun _ => isNameChar_of_isNameStart

theorem IsRun.dottedChars {s : Text} (h : IsRun isDottedChar s) : ∀ c ∈ s, isDottedChar c = true :=
  h.forall_mem fun c hc => by simp [isDottedChar, isNameChar_of_isNameStart hc]

/-- an identifier is a name of at most 128 characters -/
theorem mem_identifier {s t r : Text} {u : Unit} (h : ⟨u, t, r⟩ ∈ identifier s) :
    s = t ++ r ∧ IsRun isNameChar t ∧ t.length ≤ 128 := by
  obtain ⟨_, _, _, more, hfirst, hmore, rfl⟩ := mem_bind.1 h
  obtain ⟨c, hc, rfl, rfl⟩ := mem_satisfy.1 hfirst
  obtain ⟨rfl, hname, -, hlength⟩ := mem_span hmore
  exact ⟨rfl, ⟨c, more, rfl, hc, hname⟩, Nat.succ_le_succ hlength⟩

theorem name_append {test : Char → Bool} {most : Nat} {s b : Text} (hs : IsRun test s) (hlen : s.length ≤ most + 1)
    (hb : Stops test b) : (do satisfy isNameStart; span test 0 most : Pattern Unit) (s ++ b) = [⟨(), s, b⟩] := by
  obtain ⟨c, rest, rfl, hc, hrest⟩ := hs
  rw [List.cons_append, bind_singleton (satisfy_cons hc _),
    span_append hrest hb (Nat.zero_le _) (Nat.le_of_succ_le_succ hlen)]
  rfl

theorem identifier_append {s b : Text} (hs : IsRun isNameChar s) (hlen : s.length ≤ 128) (hb : Stops isNameChar b) :
    identifier (s ++ b) = [⟨(), s, b⟩] :=
  name_append hs hlen hb

theorem dottedName_append {most : Nat} {s b : Text} (hs : IsRun isDottedChar s) (hlen : s.length ≤ most + 1)
    (hb : Stops isDottedChar b) : dottedName most (s ++ b) = [⟨(), s, b⟩] :=
  name_append hs hlen hb

/-! ## Words before a name -/

/-- such a word is all that stands before the first blank -/
theorem mem_wordAndBlanks {words : List Text} (hw : ∀ w ∈ words, ∀ c ∈ w, Text.isBlank c = false) {s t r : Text}
    {u : Unit} (h : ⟨u, t, r⟩ ∈ wordAndBlanks words s) :
    s.takeWhile (!Text.isBlank ·) ∈ words ∧ ∃ b gap, s = s.takeWhile (!Text.isBlank ·) ++ b :: gap ++ r ∧
      ∀ c ∈ b :: gap, Text.isBlank c = true := by
  obtain ⟨_, _, _, _, hword, hgap, -⟩ := mem_bind.1 h
  obtain ⟨w, hmem, hliteral⟩ := List.mem_flatMap.1 hword
  obtain ⟨-, rfl⟩ := mem_literal.1 hliteral
  obtain ⟨rfl, hblank, hlen⟩ := mem_spanAll hgap
  obtain ⟨b, gap, rfl⟩ := List.exists_cons_of_length_pos hlen
  have hb : Text.isBlank b = true := hblank b List.mem_cons_self
  have hfirst : (w ++ b :: (gap ++ r)).takeWhile (!Text.isBlank ·) = w :=
    Text.takeWhile_append_cons (fun c hc => by simp [hw w hmem c hc]) (by simp [hb])
  rw [List.cons_append, hfirst]
  exact ⟨hmem, b, gap, by simp, hblank⟩

theorem wordAndBlanks_eq_nil {words : List Text} (hw : ∀ w ∈ words, ∀ c ∈ w, Text.isBlank c = false) {s : Text}
    (h : s.takeWhile (!Text.isBlank ·) ∉ words) : wordAndBlanks words s = [] :=
  List.eq_nil_iff_forall_not_mem.2 fun _ hm => h (mem_wordAndBlanks hw hm).1

theorem wordAndBlanks_append {words : List Text} (hw : ∀ w ∈ words, ∀ c ∈ w, Text.isBlank c = false) (hn : words.Nodup)
    {w gap rest : Text} (hmem : w ∈ words) (hgap : ∀ c ∈ gap, Text.isBlank c = true) (hne : gap ≠ [])
    (hr : Stops Text.isBlank rest) : wordAndBlanks words (w ++ (gap ++ rest)) = [⟨(), w ++ gap, rest⟩] := by
  have hone : ∀ {words : List Text}, wordAndBlanks words (w ++ (gap ++ rest)) =
      words.flatMap fun v => wordAndBlanks [v] (w ++ (gap ++ rest)) := by
    intro words
    show (oneOf words).andThen (fun _ => someBlanks) _ = _
    simp only [andThen, oneOf, List.flatMap_assoc]
    congr 1
    funext v
    show _ = (oneOf [v]).andThen (fun _ => someBlanks) _
    simp [andThen, oneOf]
  have hfirst : (w ++ (gap ++ rest)).takeWhile (!Text.isBlank ·) = w := by
    obtain ⟨b, gap, rfl⟩ := List.exists_cons_of_ne_nil hne
    exact Text.takeWhile_append_cons (fun c hc => by simp [hw w hmem c hc]) (by simp [hgap b List.mem_cons_self])
  have hother : ∀ v ∈ words, v ≠ w → wordAndBlanks [v] (w ++ (gap ++ rest)) = [] := by
    intro v hv hvw
    refine wordAndBlanks_eq_nil (fun u hu => List.mem_singleton.1 hu ▸ hw v hv) ?_
    rw [hfirst]
    simpa using Ne.symm hvw
  have hself : wordAndBlanks [w] (w ++ (gap ++ rest)) = [⟨(), w ++ gap, rest⟩] := by
    have hword : oneOf [w] (w ++ (gap ++ rest)) = [⟨(), w, gap ++ rest⟩] := by simp [oneOf, literal]
    have := bind_singleton hword fun _ => someBlanks
    rw [someBlanks_append hgap hne hr] at this
    exact this
  obtain ⟨before, after, rfl⟩ := List.append_of_mem hmem
  have hnodup := List.nodup_append.1 hn
  have hbefore : before.flatMap (fun v => wordAndBlanks [v] (w ++ (gap ++ rest))) = [] :=
    List.flatMap_eq_nil_iff.2 fun v hv => hother v (by simp [hv]) (hnodup.2.2 v hv w List.mem_cons_self)
  have hafter : after.flatMap (fun v => wordAndBlanks [v] (w ++ (gap ++ rest))) = [] :=
    List.flatMap_eq_nil_iff.2 fun v hv => hother v (by simp [hv]) fun he =>
      (List.nodup_cons.1 hnodup.2.1).1 (he ▸ hv)
  rw [hone, List.flatMap_append, List.flatMap_cons, hbefore, hafter, hself]
  rfl

theorem wordAndBlanks_space {words : List Text} (hw : ∀ w ∈ words, ∀ c ∈ w, Text.isBlank c = false) (hn : words.Nodup)
    {w rest : Text} (hmem : w ∈ words) (hr : Stops Text.isBlank rest) :
    wordAndBlanks words (w ++ ' ' :: rest) = [⟨(), w ++ [' '], rest⟩] := by
  have hgap : ∀ c ∈ [' '], Text.isBlank c = true := by decide
  exact wordAndBlanks_append hw hn hmem hgap (List.cons_ne_nil _ _) hr

/-! ## Type expressions -/

/-- the closing character that is found is the last one within the run -/
theorem first?_closedBy_of_last {closing : Char} {test : Char → Bool} {most n : Nat} {s rest : Text}
    (hn : n ≤ ((s.take most).takeWhile test).length) (hhere : s.drop n = closing :: rest)
    (hlast : ∀ m, n < m → m ≤ ((s.take most).takeWhile test).length → ∀ tail, s.drop m ≠ closing :: tail) :
    (closedBy closing test most).first? s = some ⟨(), s.take (n + 1), rest⟩ := by
  have hsplit : ∀ k, (List.range (n + k + 1)).reverse =
      ((List.range k).map (n + 1 + ·)).reverse ++ n :: (List.range n).reverse := by
    intro k
    rw [Nat.add_right_comm, List.range_add, List.reverse_append, List.range_succ, List.reverse_append]
    rfl
  obtain ⟨k, hk⟩ := Nat.exists_eq_add_of_le hn
  rw [first?, closedBy]
  simp only [hk, hsplit]
  rw [List.head?_filterMap, List.findSome?_append, List.findSome?_cons, hhere]
  rw [List.findSome?_eq_none_iff.2]
  · simp
  · intro m hm
    obtain ⟨j, hj, rfl⟩ := List.mem_map.1 (List.mem_reverse.1 hm)
    have hj := List.mem_range.1 hj
    cases hd : s.drop (n + 1 + j) with
    | nil => rfl
    | cons d tail =>
      have hne : d ≠ closing := fun he => hlast (n + 1 + j) (by omega) (by omega) tail (he ▸ hd)
      simp [hne]

/-- a run ends before a character that fails the test -/
theorem length_run_le {test : Char → Bool} {c : Char} (hc : test c = false) (a rest : Text) (most : Nat) :
    (((a ++ c :: rest).take most).takeWhile test).length ≤ a.length := by
  induction a generalizing most with
  | nil =>
    have hstop : Stops test (c :: rest) := stops_cons hc rest
    simp [(hstop.take most).takeWhile]
  | cons d a ih =>
    cases most with
    | zero => simp
    | succ most =>
      rw [List.cons_append, List.take_succ_cons, List.takeWhile_cons]
      split
      · simpa using ih most
      · simp

theorem first?_closedBy {closing c : Char} {test : Char → Bool} {most : Nat} {a b rest : Text}
    (ha : ∀ x ∈ a, test x = true) (hlen : a.length ≤ most) (hb : closing ∉ b) (hc : test c = false)
    (hne : c ≠ closing) :
    (closedBy closing test most).first? (a ++ closing :: (b ++ c :: rest)) =
      some ⟨(), a ++ [closing], b ++ c :: rest⟩ := by
  have hmin : a.length ≤ (((a ++ closing :: (b ++ c :: rest)).take most).takeWhile test).length := by
    rw [List.take_append, List.take_of_length_le hlen, List.takeWhile_append_of_pos ha]
    simp
  have hmax : (((a ++ closing :: (b ++ c :: rest)).take most).takeWhile test).length ≤ a.length + 1 + b.length := by
    have htext : a ++ closing :: (b ++ c :: rest) = a ++ closing :: b ++ c :: rest := by simp
    have := length_run_le hc (a ++ closing :: b) rest most
    rw [← htext] at this
    simp only [List.length_append, List.length_cons] at this
    omega
  have hlast : ∀ m, a.length < m → m ≤ (((a ++ closing :: (b ++ c :: rest)).take most).takeWhile test).length →
      ∀ tail, (a ++ closing :: (b ++ c :: rest)).drop m ≠ closing :: tail := by
    intro m hlo hhi tail htail
    obtain ⟨k, rfl⟩ := Nat.exists_eq_add_of_lt hlo
    have hk : k ≤ b.length := by omega
    rw [Nat.add_assoc, ← List.drop_drop, List.drop_left, List.drop_succ_cons, List.drop_append_of_le_length hk] at htail
    -- what comes next belongs to `b` or is the character that fails the test
    cases hbk : b.drop k with
    | nil =>
      rw [hbk] at htail
      exact hne (List.cons.inj htail).1
    | cons d ds =>
      rw [hbk] at htail
      have hd : d ∈ b := (List.drop_suffix k b).subset (by simp [hbk])
      exact hb ((List.cons.inj htail).1 ▸ hd)
  have htaken : (a ++ closing :: (b ++ c :: rest)).take (a.length + 1) = a ++ [closing] := by
    rw [List.take_length_add_append]
    rfl
  rw [first?_closedBy_of_last hmin List.drop_left hlast, htaken]

theorem typeArguments_eq_nil {gap rest : Text} {c : Char} (hgap : ∀ d ∈ gap, Text.isBlank d = true)
    (hb : Text.isBlank c = false) (hc : c ≠ '<') : typeArguments (gap ++ c :: rest) = [] := by
  have hblanks : blanks (gap ++ c :: rest) = [⟨(), gap, c :: rest⟩] :=
    spanAll_append hgap (stops_cons hb rest) (Nat.zero_le _)
  have hangle : (do char '<'; closedBy '>' isArgumentChar 256 : Pattern Unit) (c :: rest) = [] :=
    bind_eq_nil (char_eq_nil hc rest) _
  have := bind_singleton hblanks fun _ => (do char '<'; closedBy '>' isArgumentChar 256 : Pattern Unit)
  rw [hangle] at this
  exact this

/-- type arguments end with the last `>` before a character that cannot stand among them -/
theorem first?_typeArguments {arguments b rest : Text} {c : Char} (ha : ∀ x ∈ arguments, isArgumentChar x = true)
    (hlen : arguments.length ≤ 256) (hb : '>' ∉ b) (hc : isArgumentChar c = false) :
    typeArguments.first? ('<' :: (arguments ++ '>' :: (b ++ c :: rest))) =
      some ⟨(), '<' :: (arguments ++ ['>']), b ++ c :: rest⟩ := by
  have hne : c ≠ '>' := fun he => absurd (he ▸ hc) (by decide)
  have hopen : (char '<').first? ('<' :: (arguments ++ '>' :: (b ++ c :: rest))) =
      some ⟨(), ['<'], arguments ++ '>' :: (b ++ c :: rest)⟩ := by
    rw [first?, char_cons]
    rfl
  have hblanks : blanks.first? ('<' :: (arguments ++ '>' :: (b ++ c :: rest))) =
      some ⟨(), [], '<' :: (arguments ++ '>' :: (b ++ c :: rest))⟩ := by
    rw [first?, blanks_eq (stops_cons (by decide) _)]
    rfl
  exact first?_bind hblanks (first?_bind hopen (first?_closedBy ha hlen hb hc hne))

section NamedType

variable {name : Text} (hname : IsRun isDottedChar name) (hlen : name.length ≤ 128)
include hname hlen

theorem namedType_append {b : Text} (hb : Stops isDottedChar b) (hangle : typeArguments b = []) :
    namedType (name ++ b) = [⟨(), name, b⟩] := by
  have hdotted : dottedName 127 (name ++ b) = [⟨(), name, b⟩] := dottedName_append hname hlen hb
  have := bind_singleton hdotted fun _ => optional typeArguments
  rw [optional_of_nil hangle, List.map_singleton, List.append_nil] at this
  exact this

theorem first?_namedType_arguments {arguments b rest : Text} {c : Char} (ha : ∀ x ∈ arguments, isArgumentChar x = true)
    (harguments : arguments.length ≤ 256) (hb : '>' ∉ b) (hc : isArgumentChar c = false) :
    namedType.first? (name ++ '<' :: (arguments ++ '>' :: (b ++ c :: rest))) =
      some ⟨(), name ++ '<' :: (arguments ++ ['>']), b ++ c :: rest⟩ := by
  have hdotted : (dottedName 127).first? (name ++ '<' :: (arguments ++ '>' :: (b ++ c :: rest))) =
      some ⟨(), name, '<' :: (arguments ++ '>' :: (b ++ c :: rest))⟩ := by
    rw [first?, dottedName_append hname hlen (stops_cons (by decide) _)]
    rfl
  exact first?_bind hdotted (first?_or (first?_typeArguments ha harguments hb hc) _)

end NamedType

/-- what a character that ends a type is not -/
theorem of_not_isArgumentChar {c : Char} (h : isArgumentChar c = false) :
    isDottedChar c = false ∧ isNameChar c = false ∧ Text.isBlank c = false ∧ c ≠ '<' ∧ c ≠ '?' ∧ c ≠ '[' := by
  simp only [isArgumentChar, Bool.or_eq_false_iff, beq_eq_false_iff_ne] at h
  have hname : isNameChar c = false := by
    have := h.1.1.1.1.1.1.1
    simp only [isDottedChar, Bool.or_eq_false_iff] at this
    exact this.1
  tauto

/-- the marks after a type -/
def typeMarks : Pattern Unit := do
  optional (char '?')
  upTo 3 rank
  optional (char '?')

theorem typeExpression_eq : typeExpression = (namedType.or tupleType >>= fun _ => typeMarks) := rfl

theorem rank_eq_nil {c : Char} (hc : c ≠ '[') (rest : Text) : rank (c :: rest) = [] :=
  bind_eq_nil (char_eq_nil hc rest) _

theorem rank_brackets (rest : Text) : rank ('[' :: ']' :: rest) = [⟨(), ['[', ']'], rest⟩] := by
  have hspan : span isRankChar 0 8 (']' :: rest) = [⟨(), [], ']' :: rest⟩] :=
    span_append (a := []) (by simp) (stops_cons (by decide) rest) (Nat.zero_le _) (Nat.zero_le _)
  have hclose : (do span isRankChar 0 8; char ']' : Pattern Unit) (']' :: rest) = [⟨(), [']'], rest⟩] := by
    rw [bind_of_empty hspan, char_cons]
  have := bind_singleton (char_cons '[' (']' :: rest)) fun _ => (do span isRankChar 0 8; char ']' : Pattern Unit)
  rw [hclose] at this
  exact this

/-- where no mark stands none is taken -/
theorem typeMarks_of_ne {c : Char} (hq : c ≠ '?') (hr : c ≠ '[') (rest : Text) :
    typeMarks (c :: rest) = [⟨(), [], c :: rest⟩] := by
  have hquestion := optional_of_nil (char_eq_nil hq rest)
  have hranks := upTo_of_nil (rank_eq_nil hr rest) 3
  rw [typeMarks, bind_of_empty hquestion, bind_of_empty hranks, hquestion]

theorem first?_typeMarks_nullable {c : Char} (hq : c ≠ '?') (hr : c ≠ '[') (rest : Text) :
    typeMarks.first? ('?' :: c :: rest) = some ⟨(), ['?'], c :: rest⟩ := by
  have hfirst : (optional (char '?')).first? ('?' :: c :: rest) = some ⟨(), ['?'], c :: rest⟩ := by
    refine first?_or ?_ _
    rw [first?, char_cons]
    rfl
  have hthen : (do upTo 3 rank; optional (char '?') : Pattern Unit).first? (c :: rest) = some ⟨(), [], c :: rest⟩ := by
    rw [first?, bind_of_empty (upTo_of_nil (rank_eq_nil hr rest) 3), optional_of_nil (char_eq_nil hq rest)]
    rfl
  exact first?_bind hfirst hthen

theorem first?_typeMarks_array {c : Char} (hq : c ≠ '?') (hr : c ≠ '[') (rest : Text) :
    typeMarks.first? ('[' :: ']' :: c :: rest) = some ⟨(), ['[', ']'], c :: rest⟩ := by
  have hquestion : optional (char '?') ('[' :: ']' :: c :: rest) = [⟨(), [], '[' :: ']' :: c :: rest⟩] :=
    optional_of_nil (char_eq_nil (by decide) _)
  have hthen : (do upTo 2 rank; optional (char '?') : Pattern Unit).first? (c :: rest) = some ⟨(), [], c :: rest⟩ := by
    rw [first?, bind_of_empty (upTo_of_nil (rank_eq_nil hr rest) 2), optional_of_nil (char_eq_nil hq rest)]
    rfl
  rw [first?, typeMarks, bind_of_empty hquestion]
  exact first?_upTo_bind (rank_brackets (c :: rest)) hthen

/-- a name right before another character is a type by itself -/
theorem typeExpression_name {name rest : Text} {c : Char} (hname : IsRun isNameChar name) (hlen : name.length ≤ 128)
    (hc : isArgumentChar c = false) : typeExpression (name ++ c :: rest) = [⟨(), name, c :: rest⟩] := by
  obtain ⟨hdot, -, hb, hangle, hq, hr⟩ := of_not_isArgumentChar hc
  have hrun : IsRun isDottedChar name := by
    obtain ⟨d, tail, rfl, hd, htail⟩ := hname
    exact ⟨d, tail, rfl, hd, fun x hx => by simp [isDottedChar, htail x hx]⟩
  have hnone : typeArguments ([] ++ c :: rest) = [] := typeArguments_eq_nil (by simp) hb hangle
  have htuple : tupleType (name ++ c :: rest) = [] := by
    obtain ⟨d, tail, rfl, hd, -⟩ := hname
    exact bind_eq_nil (char_eq_nil (fun he => absurd (he ▸ hd) (by decide)) _) _
  have htype : namedType.or tupleType (name ++ c :: rest) = [⟨(), name, c :: rest⟩] := by
    rw [Pattern.or, namedType_append hrun hlen (stops_cons hdot rest) hnone, htuple]
    rfl
  rw [typeExpression_eq, bind_singleton htype, typeMarks_of_ne hq hr]
  simp

end ClassAtlas.Pattern
