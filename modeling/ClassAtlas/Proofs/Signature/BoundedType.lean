/-
Type expressions within the bounds of the patterns.

A pattern for a type does not look into its brackets, but it counts: 128 characters for a dotted name, 256 for type
arguments or the elements of a tuple, three array ranks of up to 8 characters. A `BoundedType` is a text within these
bounds. A match of the pattern takes such a text (`exists_of_mem_typeExpression`), and each of them is taken by some
match as long as nothing follows that would go on with its name (`mem_typeExpression`). So these are all the texts that
the pattern knows as types (`exists_boundedType_iff`).
-/
import ClassAtlas.Proofs.Word

namespace ClassAtlas.Signature

open Pattern
open Text (Blanks EndsSolid StartsSolid)

/-! ## The texts -/

/-- type arguments with the blanks before them; their brackets need not match -/
structure ArgumentText where
  gap : Blanks
  inner : Text
  chars : ∀ c ∈ inner, isArgumentChar c = true
  fits : inner.length ≤ 256

def ArgumentText.text (a : ArgumentText) : Text := a.gap.1 ++ '<' :: (a.inner ++ ['>'])

/-- a type before the marks behind it -/
inductive BoundedHead where
  | named (name : Text) (isName : IsRun isDottedChar name) (fits : name.length ≤ 128) (arguments : Option ArgumentText)
  | tuple (inner : Text) (chars : ∀ c ∈ inner, isArgumentChar c = true) (ne : inner ≠ []) (fits : inner.length ≤ 256)

def BoundedHead.text : BoundedHead → Text
  | named name _ _ arguments => name ++ (arguments.map ArgumentText.text).getD []
  | tuple inner _ _ _ => '(' :: (inner ++ [')'])

/-- what stands between the brackets of an array rank -/
abbrev RankText := { s : Text // (∀ c ∈ s, isRankChar c = true) ∧ s.length ≤ 8 }

def ranksText (ranks : List RankText) : Text := ranks.flatMap fun r => '[' :: (r.1 ++ [']'])

/-- a question mark, if there is one -/
def questionText (marked : Bool) : Text := if marked then ['?'] else []

structure BoundedType where
  head : BoundedHead
  nullable : Bool
  ranks : List RankText
  few : ranks.length ≤ 3
  nullableArray : Bool

def BoundedType.marks (t : BoundedType) : Text :=
  questionText t.nullable ++ (ranksText t.ranks ++ questionText t.nullableArray)

def BoundedType.text (t : BoundedType) : Text := t.head.text ++ t.marks

/-! ## Every match takes such a text -/

theorem exists_of_mem_question {s t r : Text} {u : Unit} (h : ⟨u, t, r⟩ ∈ optional (char '?') s) :
    s = t ++ r ∧ ∃ marked, t = questionText marked := by
  refine ⟨(sound_satisfy _).optional _ _ _ _ h, ?_⟩
  rcases mem_optional.1 h with h | ⟨rfl, -⟩
  · obtain ⟨c, hc, rfl, -⟩ := mem_satisfy.1 h
    obtain rfl : c = '?' := by simpa using hc
    exact ⟨true, rfl⟩
  · exact ⟨false, rfl⟩

theorem exists_of_mem_rank {s t r : Text} {u : Unit} (h : ⟨u, t, r⟩ ∈ rank s) :
    s = t ++ r ∧ ∃ inner : RankText, t = '[' :: (inner.1 ++ [']']) := by
  obtain ⟨_, _, _, _, hopen, hinside, rfl⟩ := mem_bind.1 h
  obtain ⟨_, inner, _, _, hspan, hclose, rfl⟩ := mem_bind.1 hinside
  obtain ⟨c, hc, rfl, rfl⟩ := mem_satisfy.1 hopen
  obtain ⟨rfl, hchars, -, hfits⟩ := mem_span hspan
  obtain ⟨d, hd, rfl, rfl⟩ := mem_satisfy.1 hclose
  obtain rfl : c = '[' := by simpa using hc
  obtain rfl : d = ']' := by simpa using hd
  exact ⟨by simp, ⟨inner, hchars, hfits⟩, rfl⟩

theorem exists_of_mem_ranks {n : Nat} {s t r : Text} {u : Unit} (h : ⟨u, t, r⟩ ∈ upTo n rank s) :
    s = t ++ r ∧ ∃ ranks : List RankText, ranks.length ≤ n ∧ t = ranksText ranks :=
  exists_parts_of_mem_upTo exists_of_mem_rank h

theorem exists_of_mem_typeArguments {s t r : Text} {u : Unit} (h : ⟨u, t, r⟩ ∈ typeArguments s) :
    s = t ++ r ∧ ∃ a : ArgumentText, t = a.text := by
  obtain ⟨_, gap, _, _, hgap, hlist, rfl⟩ := mem_bind.1 h
  obtain ⟨_, _, _, _, hopen, hclosed, rfl⟩ := mem_bind.1 hlist
  obtain ⟨rfl, hblank, -⟩ := mem_spanAll hgap
  obtain ⟨c, hc, rfl, rfl⟩ := mem_satisfy.1 hopen
  obtain ⟨inner, rfl, rfl, hchars, hfits⟩ := mem_closedBy.1 hclosed
  obtain rfl : c = '<' := by simpa using hc
  exact ⟨by simp, ⟨⟨gap, hblank⟩, inner, hchars, hfits⟩, rfl⟩

theorem exists_of_mem_namedType {s t r : Text} {u : Unit} (h : ⟨u, t, r⟩ ∈ namedType s) :
    s = t ++ r ∧ ∃ head : BoundedHead, t = head.text := by
  obtain ⟨_, _, _, _, hname, harguments, rfl⟩ := mem_bind.1 h
  obtain ⟨_, _, _, more, hstart, hmore, rfl⟩ := mem_bind.1 hname
  obtain ⟨c, hc, rfl, rfl⟩ := mem_satisfy.1 hstart
  obtain ⟨rfl, hchars, -, hfits⟩ := mem_span hmore
  have hrun : IsRun isDottedChar ([c] ++ more) := ⟨c, more, rfl, hc, hchars⟩
  rcases mem_optional.1 harguments with h | ⟨rfl, rfl⟩
  · obtain ⟨rfl, a, rfl⟩ := exists_of_mem_typeArguments h
    exact ⟨by simp, .named _ hrun (Nat.succ_le_succ hfits) (some a), rfl⟩
  · exact ⟨by simp, .named _ hrun (Nat.succ_le_succ hfits) none, rfl⟩

theorem exists_of_mem_tupleType {s t r : Text} {u : Unit} (h : ⟨u, t, r⟩ ∈ tupleType s) :
    s = t ++ r ∧ ∃ head : BoundedHead, t = head.text := by
  obtain ⟨_, _, _, _, hopen, hinside, rfl⟩ := mem_bind.1 h
  obtain ⟨_, inner, _, _, hspan, hclose, rfl⟩ := mem_bind.1 hinside
  obtain ⟨c, hc, rfl, rfl⟩ := mem_satisfy.1 hopen
  obtain ⟨rfl, hchars, hleast, hfits⟩ := mem_span hspan
  obtain ⟨d, hd, rfl, rfl⟩ := mem_satisfy.1 hclose
  obtain rfl : c = '(' := by simpa using hc
  obtain rfl : d = ')' := by simpa using hd
  exact ⟨by simp, .tuple inner hchars (List.length_pos_iff.1 hleast) hfits, rfl⟩

/-- **a match of a type takes a text within the bounds** -/
theorem exists_of_mem_typeExpression {s t r : Text} {u : Unit} (h : ⟨u, t, r⟩ ∈ typeExpression s) :
    s = t ++ r ∧ ∃ type : BoundedType, t = type.text := by
  rw [typeExpression_eq] at h
  obtain ⟨_, _, _, _, hhead, hmarks, rfl⟩ := mem_bind.1 h
  obtain ⟨_, _, _, _, hfirst, hafter, rfl⟩ := mem_bind.1 hmarks
  obtain ⟨_, _, _, _, hranks, hlast, rfl⟩ := mem_bind.1 hafter
  obtain ⟨rfl, nullable, rfl⟩ := exists_of_mem_question hfirst
  obtain ⟨rfl, ranks, hfew, rfl⟩ := exists_of_mem_ranks hranks
  obtain ⟨rfl, nullableArray, rfl⟩ := exists_of_mem_question hlast
  obtain ⟨rfl, head, rfl⟩ : s = _ ++ _ ∧ ∃ head : BoundedHead, _ = head.text :=
    (mem_or.1 hhead).elim exists_of_mem_namedType exists_of_mem_tupleType
  exact ⟨by simp, ⟨head, nullable, ranks, hfew, nullableArray⟩, rfl⟩

/-! ## Every such text is taken by a match -/

theorem mem_question (marked : Bool) (tail : Text) :
    ⟨(), questionText marked, tail⟩ ∈ optional (char '?') (questionText marked ++ tail) := by
  cases marked with
  | true => exact mem_optional.2 (Or.inl (mem_char '?' tail))
  | false => exact mem_optional.2 (Or.inr ⟨rfl, rfl⟩)

theorem mem_rank (inner : RankText) (tail : Text) :
    ⟨(), '[' :: (inner.1 ++ [']']), tail⟩ ∈ rank ('[' :: (inner.1 ++ ']' :: tail)) := by
  have hspan : ⟨(), inner.1, ']' :: tail⟩ ∈ span isRankChar 0 8 (inner.1 ++ ']' :: tail) := by
    rw [span_append inner.2.1 (stops_cons (by decide) tail) (Nat.zero_le _) inner.2.2]
    exact List.mem_singleton_self _
  exact mem_bind_of (mem_char '[' _) (mem_bind_of hspan (mem_char ']' tail))

theorem mem_ranks {n : Nat} {ranks : List RankText} (hfew : ranks.length ≤ n) (tail : Text) :
    ⟨(), ranksText ranks, tail⟩ ∈ upTo n rank (ranksText ranks ++ tail) := by
  refine mem_upTo_flatMap (fun _ => True) (fun inner _ tail _ => ?_) (fun _ _ _ => trivial) hfew trivial
  have htext : '[' :: (inner.1 ++ [']']) ++ tail = '[' :: (inner.1 ++ ']' :: tail) := by simp
  rw [htext]
  exact mem_rank inner tail

theorem mem_typeArguments (a : ArgumentText) (tail : Text) :
    ⟨(), a.text, tail⟩ ∈ typeArguments (a.gap.1 ++ '<' :: (a.inner ++ '>' :: tail)) := by
  have hgap : ⟨(), a.gap.1, '<' :: (a.inner ++ '>' :: tail)⟩ ∈ blanks (a.gap.1 ++ '<' :: (a.inner ++ '>' :: tail)) := by
    rw [blanks, spanAll_append a.gap.2 (stops_cons (by decide) _) (Nat.zero_le _)]
    exact List.mem_singleton_self _
  have hclosed : ⟨(), a.inner ++ ['>'], tail⟩ ∈ closedBy '>' isArgumentChar 256 (a.inner ++ '>' :: tail) :=
    mem_closedBy.2 ⟨a.inner, rfl, rfl, a.chars, a.fits⟩
  exact mem_bind_of hgap (mem_bind_of (mem_char '<' _) hclosed)

theorem ArgumentText.stops (a : ArgumentText) (tail : Text) : Stops isDottedChar (a.gap.1 ++ '<' :: tail) := by
  cases hgap : a.gap.1 with
  | nil => exact stops_cons (by decide) _
  | cons b gap => exact stops_cons (not_isDottedChar_of_isBlank (a.gap.2 b (hgap ▸ List.mem_cons_self))) _

theorem mem_head (head : BoundedHead) {tail : Text} (ht : Stops isDottedChar tail) :
    ⟨(), head.text, tail⟩ ∈ namedType.or tupleType (head.text ++ tail) := by
  cases head with
  | named name isName fits arguments =>
    have hname : ∀ {rest : Text}, Stops isDottedChar rest → ⟨(), name, rest⟩ ∈ dottedName 127 (name ++ rest) := by
      intro rest hr
      rw [dottedName_append isName fits hr]
      exact List.mem_singleton_self _
    refine mem_or.2 (Or.inl ?_)
    cases arguments with
    | none =>
      have htext : BoundedHead.text (.named name isName fits none) ++ tail = name ++ tail := by simp [BoundedHead.text]
      rw [htext]
      exact mem_bind_of (hname ht) (mem_optional.2 (Or.inr ⟨rfl, rfl⟩))
    | some a =>
      have htext : BoundedHead.text (.named name isName fits (some a)) ++ tail =
          name ++ (a.gap.1 ++ '<' :: (a.inner ++ '>' :: tail)) := by
        simp [BoundedHead.text, ArgumentText.text]
      have hstop : Stops isDottedChar (a.gap.1 ++ '<' :: (a.inner ++ '>' :: tail)) := a.stops _
      rw [htext]
      exact mem_bind_of (hname hstop) (mem_optional.2 (Or.inl (mem_typeArguments a tail)))
  | tuple inner chars ne fits =>
    have hspan : ⟨(), inner, ')' :: tail⟩ ∈ span isArgumentChar 1 256 (inner ++ ')' :: tail) := by
      rw [span_append chars (stops_cons (by decide) tail) (List.length_pos_iff.2 ne) fits]
      exact List.mem_singleton_self _
    have htext : BoundedHead.text (.tuple inner chars ne fits) ++ tail = '(' :: (inner ++ ')' :: tail) := by
      simp [BoundedHead.text]
    rw [htext]
    exact mem_or.2 (Or.inr (mem_bind_of (mem_char '(' _) (mem_bind_of hspan (mem_char ')' tail))))

theorem BoundedType.marks_eq (t : BoundedType) :
    t.marks = [] ∨ ∃ c rest, t.marks = c :: rest ∧ (c = '?' ∨ c = '[') := by
  obtain ⟨head, nullable, ranks, few, nullableArray⟩ := t
  cases nullable with
  | true => exact Or.inr ⟨'?', _, rfl, Or.inl rfl⟩
  | false =>
    cases ranks with
    | cons inner ranks => exact Or.inr ⟨'[', _, rfl, Or.inr rfl⟩
    | nil =>
      cases nullableArray with
      | true => exact Or.inr ⟨'?', _, rfl, Or.inl rfl⟩
      | false => exact Or.inl rfl

theorem BoundedType.stops_marks (t : BoundedType) {tail : Text} (ht : Stops isDottedChar tail) :
    Stops isDottedChar (t.marks ++ tail) := by
  rcases t.marks_eq with hmarks | ⟨c, rest, hmarks, hc⟩
  · rw [hmarks]
    exact ht
  · rw [hmarks]
    refine stops_cons ?_ _
    rcases hc with rfl | rfl <;> decide

/-- **a text within the bounds is taken by a match of a type** -/
theorem mem_typeExpression (t : BoundedType) {tail : Text} (ht : Stops isDottedChar tail) :
    ⟨(), t.text, tail⟩ ∈ typeExpression (t.text ++ tail) := by
  have hhead := mem_head t.head (t.stops_marks ht)
  have hmarks : ⟨(), t.marks, tail⟩ ∈ typeMarks (t.marks ++ tail) := by
    have htext : t.marks ++ tail =
        questionText t.nullable ++ (ranksText t.ranks ++ (questionText t.nullableArray ++ tail)) := by
      simp [BoundedType.marks]
    rw [htext]
    exact mem_bind_of (mem_question t.nullable _) (mem_bind_of (mem_ranks t.few _) (mem_question t.nullableArray tail))
  rw [typeExpression_eq, BoundedType.text, List.append_assoc]
  exact mem_bind_of hhead hmarks

/-- the texts within the bounds are those that the pattern of a type takes as a whole -/
theorem exists_boundedType_iff {s : Text} : (∃ t : BoundedType, t.text = s) ↔ ⟨(), s, []⟩ ∈ typeExpression s := by
  constructor
  · rintro ⟨t, rfl⟩
    simpa using mem_typeExpression t (stops_nil _)
  · intro h
    obtain ⟨-, t, ht⟩ := exists_of_mem_typeExpression h
    exact ⟨t, ht.symm⟩

/-! ## Their characters -/

theorem isArgumentChar_of_isDottedChar {c : Char} (h : isDottedChar c = true) : isArgumentChar c = true := by
  simp [isArgumentChar, h]

theorem isArgumentChar_of_isNameChar {c : Char} (h : isNameChar c = true) : isArgumentChar c = true :=
  isArgumentChar_of_isDottedChar (by simp [isDottedChar, h])

theorem isArgumentChar_of_isBlank {c : Char} (h : Text.isBlank c = true) : isArgumentChar c = true := by
  simp [isArgumentChar, h]

/-- a text that may stand between the brackets of a type -/
abbrev IsInner (s : Text) : Prop := ∀ c ∈ s, isArgumentChar c = true

theorem IsInner.append {a b : Text} (ha : IsInner a) (hb : IsInner b) : IsInner (a ++ b) :=
  List.forall_mem_append.2 ⟨ha, hb⟩

theorem isInner_blanks (gap : Blanks) : IsInner gap.1 := fun c hc => isArgumentChar_of_isBlank (gap.2 c hc)

/-- two texts of this kind, each up to a character that is not -/
theorem IsInner.first_inj {a b a' b' : Text} {c c' : Char} (ha : IsInner a) (hc : isArgumentChar c = false)
    (ha' : IsInner a') (hc' : isArgumentChar c' = false) (h : a ++ c :: b = a' ++ c' :: b') :
    a = a' ∧ c = c' ∧ b = b' := by
  have hinner : ∀ {a : Text}, IsInner a → ∀ x ∈ a, (!isArgumentChar x) = false := fun ha x hx => by simp [ha x hx]
  exact Text.first_inj (hinner ha) (by simp [hc]) (hinner ha') (by simp [hc']) h

theorem ArgumentText.isInner_text (a : ArgumentText) : IsInner a.text := by
  have hclosed : IsInner (a.inner ++ ['>']) := .append a.chars (by decide)
  exact (isInner_blanks a.gap).append (List.forall_mem_cons.2 ⟨by decide, hclosed⟩)

namespace BoundedType

variable (t : BoundedType)

theorem isInner_marks : IsInner t.marks := by
  have hquestion : ∀ marked, IsInner (questionText marked) := by
    intro marked
    cases marked <;> decide
  have hrank : ∀ inner : RankText, IsInner ('[' :: (inner.1 ++ [']'])) := by
    intro inner
    refine List.forall_mem_cons.2 ⟨by decide, IsInner.append (fun c hc => ?_) (by decide)⟩
    have hchar := inner.2.1 c hc
    simp only [isRankChar, Bool.or_eq_true, beq_iff_eq] at hchar
    rcases hchar with rfl | hblank
    · decide
    · exact isArgumentChar_of_isBlank hblank
  have hranks : IsInner (ranksText t.ranks) := by
    intro c hc
    obtain ⟨inner, -, hc⟩ := List.mem_flatMap.1 hc
    exact hrank inner c hc
  exact (hquestion t.nullable).append (hranks.append (hquestion t.nullableArray))

/-- a type holds no parenthesis, or those around a tuple -/
theorem cases_text : IsInner t.text ∨ ∃ inner, IsInner inner ∧ t.text = '(' :: (inner ++ ')' :: t.marks) := by
  unfold text
  cases t.head with
  | named name isName fits arguments =>
    have hname : IsInner name := fun c hc => isArgumentChar_of_isDottedChar (isName.dottedChars c hc)
    have harguments : IsInner ((arguments.map ArgumentText.text).getD []) := by
      cases arguments with
      | none => exact List.forall_mem_nil _
      | some a => exact a.isInner_text
    exact Or.inl ((hname.append harguments).append t.isInner_marks)
  | tuple inner chars ne fits => exact Or.inr ⟨inner, chars, by simp [BoundedHead.text]⟩

theorem exists_first : ∃ c rest, t.text = c :: rest ∧ (isNameStart c = true ∨ c = '(') := by
  unfold text
  cases t.head with
  | named name isName fits arguments =>
    obtain ⟨c, rest, rfl, hc, -⟩ := isName
    exact ⟨c, _, rfl, Or.inl hc⟩
  | tuple inner chars ne fits => exact ⟨'(', _, rfl, Or.inr rfl⟩

theorem startsSolid : StartsSolid t.text := by
  obtain ⟨c, rest, htext, hc⟩ := t.exists_first
  refine ⟨c, rest, htext, ?_⟩
  rcases hc with hc | rfl
  · exact Text.not_isBlank_of_isNameChar (isNameChar_of_isNameStart hc)
  · decide

/-- the marks behind a text do not end with a blank -/
theorem endsSolid_marks {a : Text} (ha : EndsSolid a) : EndsSolid (a ++ t.marks) := by
  have hquestion : ∀ {b : Text} (marked : Bool), EndsSolid b → EndsSolid (b ++ questionText marked) := by
    intro b marked hb
    cases marked with
    | true => exact ⟨b, '?', rfl, by decide⟩
    | false =>
      rw [questionText, if_neg Bool.false_ne_true, List.append_nil]
      exact hb
  have hranks : ∀ {b : Text} (ranks : List RankText), EndsSolid b → EndsSolid (b ++ ranksText ranks) := by
    intro b ranks hb
    induction ranks generalizing b with
    | nil => simpa [ranksText] using hb
    | cons inner ranks ih =>
      have hfirst : EndsSolid (b ++ '[' :: (inner.1 ++ [']'])) := ⟨b ++ '[' :: inner.1, ']', by simp, by decide⟩
      simpa [ranksText] using ih hfirst
  have htext : a ++ t.marks = a ++ questionText t.nullable ++ ranksText t.ranks ++ questionText t.nullableArray := by
    simp [marks]
  rw [htext]
  exact hquestion _ (hranks _ (hquestion _ ha))

theorem endsSolid : EndsSolid t.text := by
  refine t.endsSolid_marks ?_
  cases t.head with
  | named name isName fits arguments =>
    cases arguments with
    | none =>
      have hsolid := Text.solid_of_forall isName.ne_nil (Text.not_isBlank_of_isRun isName)
      simpa [BoundedHead.text] using hsolid.2
    | some a => exact ⟨name ++ a.gap.1 ++ '<' :: a.inner, '>', by simp [BoundedHead.text, ArgumentText.text], by decide⟩
  | tuple inner chars ne fits => exact ⟨'(' :: inner, ')', by simp [BoundedHead.text], by decide⟩

theorem trim_text : Text.trim t.text = t.text := Text.trim_eq_self t.startsSolid t.endsSolid

end BoundedType

end ClassAtlas.Signature
