/-
Lines that declare a method.

Such a line holds attributes, words for the visibility, modifiers, the type of the result, a name, type parameters and
the parameters in parentheses; after that anything may stand. `MethodText` is this grammar up to the parameters. Unlike
the line of a field it can be put together in two ways: `static virtual (A a) Make(` is a tuple and a name after two
words, and it is a method `virtual` with the result `static`. If the result is named, then all matches agree
(`reads_named`); if it is a tuple, then all words before it are taken first, and the right match is the best one
(`reads_tuple`). No field and no property is read off such a line, as long as the result is no modifier
(`pattern_methodLine`). So the line gives its class one method and nothing else (`ofLines?_methodLine`).
-/
import ClassAtlas.Proofs.Signature.Constructor
import ClassAtlas.Proofs.Signature.MemberLine
import ClassAtlas.Proofs.Signature.ParameterList

namespace ClassAtlas.Signature

open Pattern
open Nesting (Delimiters Shielded)
open Outline (attributes attributeTag visibilityWords fieldModifiers propertyModifiers methodModifiers methodEnd
  methodPattern isTypeParameterChar)
open Text (Blanks EndsSolid nothing space space_ne)

/-! ## From the result to the parameters -/

/-- type parameters and the blanks after them -/
structure TypeParameterText where
  inner : Text
  chars : ∀ c ∈ inner, isTypeParameterChar c = true
  fits : inner.length ≤ 128
  after : Blanks

def TypeParameterText.text (p : TypeParameterText) : Text := '<' :: (p.inner ++ '>' :: p.after.1)

/-- what stands between the name of a method and its parameters -/
structure NameTail where
  gap : Blanks
  typeParameters : Option TypeParameterText

def NameTail.text (t : NameTail) : Text := t.gap.1 ++ (t.typeParameters.map TypeParameterText.text).getD []

theorem exists_of_mem_angleList {s t r : Text} {u : Unit} (h : ⟨u, t, r⟩ ∈ angleList isTypeParameterChar 128 s) :
    ∃ inner, (∀ c ∈ inner, isTypeParameterChar c = true) ∧ inner.length ≤ 128 ∧ s = '<' :: (inner ++ '>' :: r) := by
  obtain ⟨_, _, _, _, hopen, hinside, -⟩ := mem_bind.1 h
  obtain ⟨_, inner, _, _, hspan, hclose, -⟩ := mem_bind.1 hinside
  obtain ⟨c, hc, -, rfl⟩ := mem_satisfy.1 hopen
  obtain ⟨rfl, hchars, -, hfits⟩ := mem_span hspan
  obtain ⟨d, hd, -, rfl⟩ := mem_satisfy.1 hclose
  obtain rfl : c = '<' := by simpa using hc
  obtain rfl : d = '>' := by simpa using hd
  exact ⟨inner, hchars, hfits, rfl⟩

theorem exists_of_mem_methodEnd {s t r v : Text} (h : ⟨v, t, r⟩ ∈ methodEnd s) :
    ∃ (d : TypedName) (tail : NameTail), s = d.text ++ (tail.text ++ '(' :: r) ∧ v = d.type.text := by
  obtain ⟨_, _, _, _, hdeclared, h, -⟩ := mem_bind.1 h
  obtain ⟨_, gap, _, _, hgap, h, -⟩ := mem_bind.1 h
  obtain ⟨_, _, _, _, hangles, h, -⟩ := mem_bind.1 h
  obtain ⟨_, after, _, _, hafter, h, -⟩ := mem_bind.1 h
  obtain ⟨_, _, _, _, hopen, h, -⟩ := mem_bind.1 h
  obtain ⟨rfl, -, rfl⟩ := mem_pure.1 h
  obtain ⟨rfl, d, rfl, rfl⟩ := exists_of_mem_typeAndName hdeclared
  obtain ⟨rfl, hblank, -⟩ := mem_spanAll hgap
  obtain ⟨rfl, hblank', -⟩ := mem_spanAll hafter
  obtain ⟨c, hc, -, rfl⟩ := mem_satisfy.1 hopen
  obtain rfl : c = '(' := by simpa using hc
  rcases mem_optional.1 hangles with hangles | ⟨-, hnone⟩
  · obtain ⟨inner, hchars, hfits, rfl⟩ := exists_of_mem_angleList hangles
    refine ⟨d, ⟨⟨gap, hblank⟩, some ⟨inner, hchars, hfits, ⟨after, hblank'⟩⟩⟩, ?_, rfl⟩
    simp [NameTail.text, TypeParameterText.text]
  · subst hnone
    refine ⟨d, ⟨⟨gap ++ after, fun c hc => (List.mem_append.1 hc).elim (hblank c) (hblank' c)⟩, none⟩, ?_, rfl⟩
    simp [NameTail.text]

theorem TypeParameterText.mem_angleList (p : TypeParameterText) (rest : Text) :
    ⟨(), '<' :: (p.inner ++ ['>']), rest⟩ ∈ angleList isTypeParameterChar 128 ('<' :: (p.inner ++ '>' :: rest)) := by
  have hspan : ⟨(), p.inner, '>' :: rest⟩ ∈ span isTypeParameterChar 0 128 (p.inner ++ '>' :: rest) := by
    rw [span_append p.chars (stops_cons (by decide) _) (Nat.zero_le _) p.fits]
    exact List.mem_singleton_self _
  exact mem_bind_of (mem_char '<' _) (mem_bind_of hspan (mem_char '>' rest))

theorem exists_mem_methodEnd (d : TypedName) (tail : NameTail) (rest : Text) :
    ∃ t, ⟨d.type.text, t, rest⟩ ∈ methodEnd (d.text ++ (tail.text ++ '(' :: rest)) := by
  have hparen : Stops Text.isBlank ('(' :: rest) := stops_cons (by decide) rest
  have hend : ⟨d.type.text, ['('], rest⟩ ∈ (do char '('; return d.type.text : Pattern Text) ('(' :: rest) :=
    mem_bind_of (mem_char '(' rest) (mem_pure.2 ⟨rfl, rfl, rfl⟩)
  obtain ⟨gap, typeParameters⟩ := tail
  cases typeParameters with
  | none =>
    have htext : NameTail.text ⟨gap, none⟩ ++ '(' :: rest = gap.1 ++ '(' :: rest := by simp [NameTail.text]
    have hdeclared := mem_typeAndName d
      (stops_blanks_cons (fun _ => not_isNameChar_of_isBlank) gap (show isNameChar '(' = false by decide) rest)
    have hangles : ⟨(), [], '(' :: rest⟩ ∈ Pattern.optional (angleList isTypeParameterChar 128) ('(' :: rest) :=
      mem_optional.2 (Or.inr ⟨rfl, rfl⟩)
    rw [htext]
    exact ⟨_, mem_bind_of hdeclared (mem_bind_of (mem_blanks gap hparen) (mem_bind_of hangles
      (mem_bind_of (mem_blanks nothing hparen) hend)))⟩
  | some p =>
    have htext : NameTail.text ⟨gap, some p⟩ ++ '(' :: rest =
        gap.1 ++ '<' :: (p.inner ++ '>' :: (p.after.1 ++ '(' :: rest)) := by
      simp [NameTail.text, TypeParameterText.text]
    have hdeclared := mem_typeAndName d (stops_blanks_cons (fun _ => not_isNameChar_of_isBlank) gap
      (show isNameChar '<' = false by decide) (p.inner ++ '>' :: (p.after.1 ++ '(' :: rest)))
    rw [htext]
    exact ⟨_, mem_bind_of hdeclared (mem_bind_of (mem_blanks gap (stops_cons (by decide) _))
      (mem_bind_of (mem_optional.2 (Or.inl (p.mem_angleList _))) (mem_bind_of (mem_blanks p.after hparen) hend)))⟩

/-- Up to the name a text is determined by all of it: the type parameters start at the last `<`. -/
theorem NameTail.inj {a a' : Text} {tail tail' : NameTail} (ha : EndsName a) (ha' : EndsName a')
    (h : a ++ tail.text = a' ++ tail'.text) : a = a' := by
  have hnone : ∀ {a : Text}, EndsName a → ∀ gap : Blanks, Text.trimEnd (a ++ NameTail.text ⟨gap, none⟩) = a := by
    intro a ha gap
    rw [NameTail.text, Option.map_none, Option.getD_none, List.append_nil, Text.trimEnd_append ha.endsSolid gap.2]
  have hsome : ∀ (a : Text) (gap : Blanks) (p : TypeParameterText),
      Text.trimEnd (a ++ NameTail.text ⟨gap, some p⟩) = a ++ gap.1 ++ '<' :: p.inner ++ ['>'] := by
    intro a gap p
    have hsolid : EndsSolid (a ++ gap.1 ++ '<' :: p.inner ++ ['>']) := ⟨_, '>', rfl, by decide⟩
    rw [← Text.trimEnd_append hsolid p.after.2]
    simp [NameTail.text, TypeParameterText.text]
  have hmixed : ∀ {a b : Text}, EndsName a → a ≠ b ++ ['>'] := by
    rintro a b ⟨before, c, rfl, hc⟩ he
    obtain ⟨-, hlast⟩ := List.append_inj' he rfl
    obtain rfl : c = '>' := by simpa using hlast
    exact absurd hc (by decide)
  have htrim := congrArg Text.trimEnd h
  obtain ⟨gap, typeParameters⟩ := tail
  obtain ⟨gap', typeParameters'⟩ := tail'
  cases typeParameters with
  | none =>
    cases typeParameters' with
    | none => rwa [hnone ha, hnone ha'] at htrim
    | some p' =>
      rw [hnone ha, hsome] at htrim
      exact absurd htrim (hmixed ha)
  | some p =>
    cases typeParameters' with
    | none =>
      rw [hnone ha', hsome] at htrim
      exact absurd htrim.symm (hmixed ha')
    | some p' =>
      rw [hsome, hsome] at htrim
      have hangle : ∀ p : TypeParameterText, '<' ∉ p.inner := fun p hm => absurd (p.chars _ hm) (by decide)
      have hopen := ((Text.append_cons_inj (hangle p) (hangle p')).1 (List.append_cancel_right htrim)).1
      rw [← Text.trimEnd_append ha.endsSolid gap.2, hopen, Text.trimEnd_append ha'.endsSolid gap'.2]

theorem NameTail.isInner_text (tail : NameTail) : IsInner tail.text := by
  have hlist : ∀ p : TypeParameterText, IsInner p.text := by
    intro p
    have hinner : IsInner p.inner := by
      intro c hc
      have hchar := p.chars c hc
      simp only [isTypeParameterChar, Bool.or_eq_true, beq_iff_eq] at hchar
      rcases hchar with (hname | rfl) | hblank
      · exact isArgumentChar_of_isNameChar hname
      · decide
      · exact isArgumentChar_of_isBlank hblank
    have hclosed : IsInner ('>' :: p.after.1) := List.forall_mem_cons.2 ⟨by decide, isInner_blanks p.after⟩
    exact List.forall_mem_cons.2 ⟨by decide, hinner.append hclosed⟩
  unfold NameTail.text
  cases tail.typeParameters with
  | none => exact (isInner_blanks tail.gap).append (List.forall_mem_nil _)
  | some p => exact (isInner_blanks tail.gap).append (hlist p)

/-- a method from its result on is put together in one way, as far as result and rest go -/
theorem methodEnd_inj {words words' : List SpacedWord} {d d' : TypedName} {tail tail' : NameTail}
    (h : wordsText words ++ (d.type.text ++ (d.gap.1 ++ d.name ++ tail.text)) =
      wordsText words' ++ (d'.type.text ++ (d'.gap.1 ++ d'.name ++ tail'.text))) : d.type.text = d'.type.text := by
  have htext : wordsText words ++ d.text ++ tail.text = wordsText words' ++ d'.text ++ tail'.text := by
    simpa [TypedName.text] using h
  exact (words_declared_inj (NameTail.inj (d.endsName.append _) (d'.endsName.append _) htext)).1

theorem reads_methodEnd (d : TypedName) (tail : NameTail) (rest : Text) :
    Reads methodEnd (d.text ++ (tail.text ++ '(' :: rest)) d.type.text rest := by
  obtain ⟨t, hmatch⟩ := exists_mem_methodEnd d tail rest
  refine reads_of_unique hmatch fun v _ r hother => ?_
  obtain ⟨d', tail', htext, rfl⟩ := exists_of_mem_methodEnd hother
  have hframe : wordsText [] ++ (d.type.text ++ (d.gap.1 ++ d.name ++ tail.text ++ '(' :: rest)) =
      wordsText [] ++ (d'.type.text ++ (d'.gap.1 ++ d'.name ++ tail'.text ++ '(' :: r)) := by
    simpa [TypedName.text] using htext
  obtain ⟨hbefore, -, hrest⟩ | ⟨-, hnil⟩ | ⟨-, hnil, -⟩ := frame_cases isInner_wordsText
    (d.isInner_tail tail.isInner_text) (by decide) isInner_wordsText
    (d'.isInner_tail tail'.isInner_text) (by decide) hframe
  · exact ⟨(methodEnd_inj hbefore).symm, hrest.symm⟩
  · have hempty := List.append_eq_nil_iff.1 (List.append_eq_nil_iff.1 hnil.symm).2
    exact absurd hempty.1 d.type.startsSolid.ne_nil
  · have hempty := List.append_eq_nil_iff.1 (List.append_eq_nil_iff.1 hnil.symm).2
    exact absurd hempty.1 d'.type.startsSolid.ne_nil

/-! ## The whole method -/

/-- a method up to its parameters -/
structure MethodText where
  tags : List Tag
  fewTags : tags.length ≤ 3
  visibility : SpacedWord
  visible : visibility.word ∈ visibilityWords
  more : List SpacedWord
  fewMore : more.length ≤ 1
  moreVisible : ∀ w ∈ more, w.word ∈ visibilityWords
  modifiers : List SpacedWord
  fewModifiers : modifiers.length ≤ 6
  listed : ∀ w ∈ modifiers, w.word ∈ methodModifiers
  declared : TypedName
  tail : NameTail

namespace MethodText

/-- all words before the result -/
def words (m : MethodText) : List SpacedWord := m.visibility :: (m.more ++ m.modifiers)

/-- from the result on, with a text behind the opening parenthesis -/
def body (m : MethodText) (rest : Text) : Text := m.declared.text ++ (m.tail.text ++ '(' :: rest)

def line (m : MethodText) (rest : Text) : Text := tagsText m.tags ++ (wordsText m.words ++ m.body rest)

variable (m : MethodText)

theorem words_listed : ∀ w ∈ m.words, w.word ∈ visibilityWords ++ methodModifiers := by
  intro w hw
  rcases List.mem_cons.1 hw with rfl | hw
  · exact List.mem_append_left _ m.visible
  · rcases List.mem_append.1 hw with hw | hw
    · exact List.mem_append_left _ (m.moreVisible w hw)
    · exact List.mem_append_right _ (m.listed w hw)

theorem opens_body (rest : Text) : Opens (m.body rest) := m.declared.opens _

theorem line_eq (rest : Text) : m.line rest =
    tagsText m.tags ++ (m.visibility.text ++ (wordsText m.more ++ (wordsText m.modifiers ++ m.body rest))) := by
  simp [line, words, wordsText]

end MethodText

theorem isRun_methodModifiers : ∀ w ∈ methodModifiers, IsRun isNameChar w :=
  Written.isRun_of_mem Written.areNames_methodModifiers (by decide)

theorem exists_of_mem_methodPattern {s t r v : Text} (h : ⟨v, t, r⟩ ∈ methodPattern s) :
    ∃ m : MethodText, s = m.line r ∧ v = m.declared.type.text := by
  rw [Outline.methodPattern_eq] at h
  obtain ⟨_, _, _, _, htags, h, -⟩ := mem_bind.1 h
  obtain ⟨_, _, _, _, hvisibility, h, -⟩ := mem_bind.1 h
  obtain ⟨_, _, _, _, hmodifiers, hend, -⟩ := mem_bind.1 h
  obtain ⟨_, _, _, _, hfirst, hmore, rfl⟩ := mem_bind.1 hvisibility
  rw [optional_eq_upTo] at hmore
  obtain ⟨rfl, tags, fewTags, rfl⟩ := exists_of_mem_attributes htags
  obtain ⟨rfl, word, visible, rfl⟩ := exists_of_mem_wordAndBlanks Written.isRun_visibilityWords hfirst
  obtain ⟨rfl, more, fewMore, moreVisible, rfl⟩ := exists_of_mem_words Written.isRun_visibilityWords hmore
  obtain ⟨rfl, modifiers, fewModifiers, listed, rfl⟩ := exists_of_mem_words isRun_methodModifiers hmodifiers
  obtain ⟨declared, tail, rfl, rfl⟩ := exists_of_mem_methodEnd hend
  let m : MethodText :=
    ⟨tags, fewTags, word, visible, more, fewMore, moreVisible, modifiers, fewModifiers, listed, declared, tail⟩
  exact ⟨m, (m.line_eq r).symm, rfl⟩

theorem exists_mem_methodPattern (m : MethodText) (rest : Text) :
    ∃ t, ⟨m.declared.type.text, t, rest⟩ ∈ methodPattern (m.line rest) := by
  obtain ⟨t, hend⟩ := exists_mem_methodEnd m.declared m.tail rest
  have hbody := m.opens_body rest
  have hmodified := opens_words m.modifiers hbody
  have hvisible := opens_words m.more hmodified
  have hline := m.visibility.opens (wordsText m.more ++ (wordsText m.modifiers ++ m.body rest))
  have hmore := mem_words m.moreVisible m.fewMore hmodified.stops_isBlank
  rw [← optional_eq_upTo] at hmore
  rw [m.line_eq, Outline.methodPattern_eq]
  exact ⟨_, mem_bind_of (mem_attributes m.fewTags hline.stops_isBlank)
    (mem_bind_of (mem_bind_of (mem_wordAndBlanks_text m.visible hvisible.stops_isBlank) hmore)
      (mem_bind_of (mem_words m.listed m.fewModifiers hbody.stops_isBlank) hend))⟩

/-! ## What is read -/

section Result

variable (m : MethodText) (rest : Text)

theorem MethodText.frame_eq : wordsText m.words ++ m.body rest = wordsText m.words ++
    (m.declared.type.text ++ (m.declared.gap.1 ++ m.declared.name ++ m.tail.text ++ '(' :: rest)) := by
  simp [MethodText.body, TypedName.text]

/-- The parenthesis before the parameters is the first one on the line, so that all matches agree. -/
theorem reads_named (hnamed : m.declared.type.text.head? ≠ some '(')
    (hword : m.declared.type.text ∉ visibilityWords ++ methodModifiers) :
    Reads methodPattern (m.line rest) m.declared.type.text rest := by
  obtain ⟨t, hmatch⟩ := exists_mem_methodPattern m rest
  refine reads_of_unique hmatch fun v _ r hother => ?_
  obtain ⟨m', hline, rfl⟩ := exists_of_mem_methodPattern hother
  have hafter := tagsText_inj (opens_words m.words (m.opens_body rest)) (opens_words m'.words (m'.opens_body r)) hline
  rw [m.frame_eq, m'.frame_eq] at hafter
  obtain ⟨hbefore, -, hrest⟩ | ⟨-, hwords⟩ | ⟨-, -, hopen⟩ := frame_cases isInner_wordsText
    (m.declared.isInner_tail m.tail.isInner_text) (by decide) isInner_wordsText
    (m'.declared.isInner_tail m'.tail.isInner_text) (by decide) hafter
  · exact ⟨(methodEnd_inj hbefore).symm, hrest.symm⟩
  · obtain ⟨w, hw, hresult⟩ := exists_word_of_type (m.declared.stops_tail m.tail.text) hwords
    exact absurd (hresult ▸ m'.words_listed w hw) hword
  · exact absurd hopen hnamed

end Result

section WordList

variable {list : List Text} (hlist : ∀ w ∈ list, IsRun isNameChar w)
include hlist

theorem wordAndBlanks_text (hnodup : list.Nodup) {w : SpacedWord} (hw : w.word ∈ list) {tail : Text}
    (ht : Stops Text.isBlank tail) : wordAndBlanks list (w.text ++ tail) = [⟨(), w.text, tail⟩] := by
  have hsolid : ∀ v ∈ list, ∀ c ∈ v, Text.isBlank c = false :=
    fun v hv c hc => Text.not_isBlank_of_isNameChar ((hlist v hv).nameChars c hc)
  rw [SpacedWord.text, List.append_assoc]
  exact wordAndBlanks_append hsolid hnodup hw w.gap.2 w.gap_ne ht

/-- a tuple starts with no word -/
theorem wordAndBlanks_parenthesis (s : Text) : wordAndBlanks list ('(' :: s) = [] := by
  refine List.eq_nil_iff_forall_not_mem.2 fun found hfound => ?_
  obtain ⟨htext, w, -, hw⟩ := exists_of_mem_wordAndBlanks hlist hfound
  obtain ⟨c, rest, hword, hc, -⟩ := w.isRun
  rw [hw, SpacedWord.text, hword] at htext
  obtain rfl : '(' = c := (List.cons.inj htext).1
  exact absurd hc (by decide)

theorem wordAndBlanks_other {w : SpacedWord} (hw : w.word ∉ list) (s : Text) :
    wordAndBlanks list (w.text ++ s) = [] := by
  refine List.eq_nil_iff_forall_not_mem.2 fun found hfound => hw ?_
  obtain ⟨htext, v, hv, htaken⟩ := exists_of_mem_wordAndBlanks hlist hfound
  have hsame : w.word ++ (w.gap.1 ++ s) = v.word ++ (v.gap.1 ++ found.rest) := by
    simpa [htaken, SpacedWord.text] using htext
  have hgap : ∀ (w : SpacedWord) (s : Text), Stops isNameChar (w.gap.1 ++ s) :=
    fun w s => stops_gap (fun _ => not_isNameChar_of_isBlank) w.gap_ne s
  exact (run_inj w.isRun.nameChars (hgap w s) v.isRun.nameChars (hgap v _) hsame).1 ▸ hv

/-- all words are taken, up to where there is none -/
theorem reads_words (hnodup : list.Nodup) {words : List SpacedWord} (hwords : ∀ w ∈ words, w.word ∈ list) {n : Nat}
    (hfew : words.length ≤ n) {s : Text} (hs : Opens s) (hnone : wordAndBlanks list s = []) {β : Type}
    {f : Unit → Pattern β} {b : β} {r : Text} (hf : Reads (f ()) s b r) :
    Reads (upTo n (wordAndBlanks list) >>= f) (wordsText words ++ s) b r :=
  .upTo_flatMap (Stops Text.isBlank) (fun w hw _ ht => wordAndBlanks_text hlist hnodup (hwords w hw) ht)
    (fun w _ tail => (w.opens tail).stops_isBlank) hfew hs.stops_isBlank hnone hf

end WordList

theorem nodup_methodModifiers : methodModifiers.Nodup := by decide +kernel

/-- Before a tuple all words are taken first, so that none of them is left for the result. -/
theorem reads_tuple (m : MethodText) (rest : Text) (htuple : m.declared.type.text.head? = some '(') :
    Reads methodPattern (m.line rest) m.declared.type.text rest := by
  have hbody := m.opens_body rest
  have hmodified := opens_words m.modifiers hbody
  have hvisible := opens_words m.more hmodified
  have hline := m.visibility.opens (wordsText m.more ++ (wordsText m.modifiers ++ m.body rest))
  obtain ⟨after, hafter⟩ : ∃ after, m.body rest = '(' :: after := by
    obtain ⟨inner, hinner⟩ := List.head?_eq_some_iff.1 htuple
    exact ⟨_, by rw [MethodText.body, TypedName.text, hinner]; rfl⟩
  have htag : attributeTag (m.visibility.text ++ (wordsText m.more ++ (wordsText m.modifiers ++ m.body rest))) = [] :=
    bind_eq_nil (satisfy_eq_nil (hline.stops_char (by decide) (by decide))) _
  have hnoModifier : wordAndBlanks methodModifiers (m.body rest) = [] := by
    rw [hafter]
    exact wordAndBlanks_parenthesis isRun_methodModifiers after
  have hnoVisibility : wordAndBlanks visibilityWords (wordsText m.modifiers ++ m.body rest) = [] := by
    cases hmodifiers : m.modifiers with
    | nil =>
      rw [hafter]
      exact wordAndBlanks_parenthesis Written.isRun_visibilityWords after
    | cons w modifiers =>
      have hother : ∀ v ∈ methodModifiers, v ∉ visibilityWords := by decide +kernel
      have hw := hother _ (m.listed w (hmodifiers ▸ List.mem_cons_self))
      rw [wordsText, List.flatMap_cons, List.append_assoc]
      exact wordAndBlanks_other Written.isRun_visibilityWords hw _
  rw [m.line_eq, Outline.methodPattern_eq]
  refine .upTo_flatMap (Stops Text.isBlank) (fun tag _ _ ht => attributeTag_text tag ht)
    (fun tag _ => stops_isBlank_tag tag) m.fewTags hline.stops_isBlank htag ?_
  rw [Outline.visibility, bind_bind, optional_eq_upTo]
  refine .bind (wordAndBlanks_text Written.isRun_visibilityWords Written.nodup_visibilityWords m.visible
    hvisible.stops_isBlank) ?_
  refine reads_words Written.isRun_visibilityWords Written.nodup_visibilityWords m.moreVisible m.fewMore hmodified
    hnoVisibility ?_
  exact reads_words isRun_methodModifiers nodup_methodModifiers m.listed m.fewModifiers hbody hnoModifier
    (reads_methodEnd m.declared m.tail rest)

/-- **the pattern of a method reads the result, and goes on behind the parenthesis** -/
theorem reads_methodPattern (m : MethodText) (rest : Text)
    (hword : m.declared.type.text ∉ visibilityWords ++ methodModifiers) :
    Reads methodPattern (m.line rest) m.declared.type.text rest := by
  by_cases htuple : m.declared.type.text.head? = some '('
  · exact reads_tuple m rest htuple
  · exact reads_named m rest htuple hword

/-- no field and no property ends with a parenthesis, and the result is no modifier before a tuple -/
theorem pattern_methodLine {kind : MemberKind} (m : MethodText) (rest : Text)
    (hword : m.declared.type.text ∉ kind.modifiers) : kind.pattern (m.line rest) = [] := by
  refine List.eq_nil_iff_forall_not_mem.2 fun found hfound => ?_
  obtain ⟨m', hline, -⟩ := exists_of_mem_pattern hfound
  obtain ⟨hend, hopen⟩ := MemberKind.not_isArgumentChar_of_ends m'.ends
  have hafter := tagsText_inj (opens_words m.words (m.opens_body rest)) (m'.opens found.rest) hline
  rw [m.frame_eq, m'.frame_eq] at hafter
  obtain ⟨-, he, -⟩ | ⟨-, hwords⟩ | ⟨he, -⟩ := frame_cases isInner_wordsText
    (m.declared.isInner_tail m.tail.isInner_text) (by decide) isInner_wordsText
    (m'.declared.isInner_tail (isInner_blanks m'.gap)) hend hafter
  · exact hopen he.symm
  · obtain ⟨w, hw, hresult⟩ := exists_word_of_type (m.declared.stops_tail m.tail.text) hwords
    exact hword (hresult ▸ m'.listed w hw)
  · exact hopen he

/-! ## Parameters with blanks around them -/

structure SpacedParameter extends Parameter where
  before : Blanks
  gap : Blanks
  gap_ne : gap.1 ≠ []
  after : Blanks

namespace SpacedParameter

def text (p : SpacedParameter) : Text := p.before.1 ++ (p.type.render ++ (p.gap.1 ++ (p.name.1 ++ p.after.1)))

/-- as a parameter in full, without the parts that are left out -/
def listed (p : SpacedParameter) : Listed :=
  ⟨p.before, { p.toParameter with attributes := [], modifiers := [], gap := p.gap, gap_ne := p.gap_ne, value := none },
    p.after⟩

theorem text_listed (p : SpacedParameter) : p.listed.text = p.text := by
  simp [listed, text, Listed.text, FullParameter.text, FullParameter.modified, FullParameter.valueText]

/-- parentheses stand in pairs -/
theorem shielded_text (p : SpacedParameter) :
    Shielded (Delimiters.grouping ++ Delimiters.literals) (· ≠ ')') p.text := by
  have hblanks : ∀ b : Blanks, Shielded (Delimiters.grouping ++ Delimiters.literals) (· ≠ ')') b.1 :=
    .of_blanks fun c hc he => absurd (he ▸ hc) (by decide)
  have htest : ∀ c : Char, c ≠ ',' → c ≠ ')' → c ≠ ')' := fun _ _ h => h
  have htype : Shielded (Delimiters.grouping ++ Delimiters.literals) (· ≠ ')') p.type.render :=
    p.shielded_type (by decide) (by decide) htest (Or.inr (by decide))
  have hname : Shielded (Delimiters.grouping ++ Delimiters.literals) (· ≠ ')') p.name.1 := p.shielded_name htest
  exact (hblanks p.before).append (htype.append ((hblanks p.gap).append (hname.append (hblanks p.after))))

end SpacedParameter

/-- what stands between the parentheses -/
def spacedText (inside : Blanks) (parameters : List SpacedParameter) : Text :=
  inside.1 ++ List.intercalate [','] (parameters.map SpacedParameter.text)

def spacedTrees (parameters : List SpacedParameter) : List TypeTree := parameters.map fun p => p.type.tree

theorem parameterTypes_spacedText (inside : Blanks) (parameters : List SpacedParameter) :
    Outline.parameterTypes (spacedText inside parameters) = spacedTrees parameters := by
  cases parameters with
  | nil =>
    have hpassable : ∀ q ∈ [inside.1], Nesting.Passable Delimiters.all (· ≠ ',') q :=
      List.forall_mem_singleton.2 (Shielded.of_blanks (fun _ => ne_comma_of_isBlank) inside).passable
    have htext : spacedText inside [] = List.intercalate [','] [inside.1] := by simp [spacedText]
    rw [htext, Outline.parameterTypes, Nesting.split_intercalate (List.cons_ne_nil _ _) hpassable]
    simp [Text.trim_blanks, spacedTrees]
  | cons p parameters =>
    -- the blanks after the parenthesis belong to the first parameter
    let first : SpacedParameter :=
      { p with before := ⟨inside.1 ++ p.before.1, fun c hc => (List.mem_append.1 hc).elim (inside.2 c) (p.before.2 c)⟩ }
    have hlisted : Listed.text ∘ SpacedParameter.listed = SpacedParameter.text := funext SpacedParameter.text_listed
    have htext : spacedText inside (p :: parameters) = listText ((first :: parameters).map SpacedParameter.listed) := by
      rw [listText, List.map_map, hlisted, spacedText]
      cases parameters <;> simp [first, SpacedParameter.text, List.intercalate_cons_cons]
    have htypes : (Outline.typeOfParameter? ∘ fun l : Listed => Text.trim l.text) =
        some ∘ fun l => l.parameter.type.render := funext Listed.typeOfParameter?_trim
    have htrees : spacedTrees (p :: parameters) = (first :: parameters).map fun q => q.type.tree := rfl
    rw [htext, htrees, Outline.parameterTypes, split_listText, List.filterMap_map, htypes, List.filterMap_eq_map,
      List.map_map, List.map_map]
    exact List.map_congr_left fun q _ => TypeTree.parse_shape q.type.shape q.type.marks

theorem parametersAfter_spacedText (inside : Blanks) (parameters : List SpacedParameter) (rest : Text) :
    Outline.parametersAfter (spacedText inside parameters ++ ')' :: rest) = spacedTrees parameters := by
  have hlist : Shielded (Delimiters.grouping ++ Delimiters.literals) (· ≠ ')') (spacedText inside parameters) := by
    refine .append (.of_blanks (fun c hc he => absurd (he ▸ hc) (by decide)) inside) (.intercalate ?_ fun q hq => ?_)
    · exact .char (Nesting.plain_comma _) (by decide)
    · obtain ⟨p, -, rfl⟩ := List.mem_map.1 hq
      exact p.shielded_text
  rw [Outline.parametersAfter, Nesting.before, Nesting.cut?_append_cons hlist, Option.map_some, Option.getD_some,
    parameterTypes_spacedText]

/-! ## The class -/

/-- all words that may stand before a member -/
def modifierWords : List Text := fieldModifiers ++ propertyModifiers ++ methodModifiers

/-- a method with its parameters and what stands behind them -/
def MethodText.fullLine (m : MethodText) (inside : Blanks) (parameters : List SpacedParameter) (rest : Text) : Text :=
  m.line (spacedText inside parameters ++ ')' :: rest)

section Line

variable (m : MethodText) (inside : Blanks) (parameters : List SpacedParameter) (rest : Text)
  (hkeyword : Vocabulary.isNonTypeWord m.declared.type.text = false) (hword : m.declared.type.text ∉ modifierWords)
include hword

theorem memberType?_fullLine : Outline.memberType? (m.fullLine inside parameters rest) = none := by
  have hnone : ∀ kind : MemberKind, m.declared.type.text ∉ kind.modifiers →
      Outline.declaredType? kind.pattern (m.fullLine inside parameters rest) = none :=
    fun kind hkind => declaredType?_eq_none (pattern_methodLine m _ hkind)
  have hfield : Outline.declaredType? Outline.fieldPattern (m.fullLine inside parameters rest) = none :=
    hnone .field fun hm => hword (by simp [modifierWords, show _ ∈ fieldModifiers from hm])
  have hproperty : Outline.declaredType? Outline.propertyPattern (m.fullLine inside parameters rest) = none :=
    hnone .property fun hm => hword (by simp [modifierWords, show _ ∈ propertyModifiers from hm])
  simp [memberType?_eq, memberTypeText?, hfield, hproperty]

include hkeyword

theorem method?_fullLine : Outline.method? (m.fullLine inside parameters rest) =
    some ⟨Outline.resultType? m.declared.type.text, spacedTrees parameters⟩ := by
  have hresult : m.declared.type.text ∉ Outline.visibilityWords ++ methodModifiers := by
    intro hm
    refine hword ?_
    rcases List.mem_append.1 hm with hm | hm
    · simp [modifierWords, fieldModifiers, hm]
    · simp [modifierWords, hm]
  obtain ⟨taken, hfirst⟩ := reads_methodPattern m (spacedText inside parameters ++ ')' :: rest) hresult
  rw [MethodText.fullLine, Outline.method?_of_first? hfirst hkeyword, parametersAfter_spacedText]

theorem declaredOn_fullLine (className : Text) : Outline.declaredOn className (m.fullLine inside parameters rest) =
    ⟨none, some ⟨Outline.resultType? m.declared.type.text, spacedTrees parameters⟩, none⟩ := by
  rw [Outline.declaredOn, memberType?_fullLine m inside parameters rest hword,
    method?_fullLine m inside parameters rest hkeyword hword]
  rfl

end Line

/-- **The line of a method is read exactly.** It gives the class one method, with the tree of the result, or none for
`void`, and the trees of the parameters in order; it gives no constructor, no field and no property. -/
theorem ofLines?_methodLine {declaration : Text} {found : Match Text}
    (h : Source.classMatch? declaration = some found) (above below : List Text) (m : MethodText) (inside : Blanks)
    (parameters : List SpacedParameter) (rest : Text)
    (hkeyword : Vocabulary.isNonTypeWord m.declared.type.text = false)
    (hword : m.declared.type.text ∉ modifierWords) :
    ∃ o, Outline.ofLines? (declaration :: (above ++ m.fullLine inside parameters rest :: below)) = some o ∧
      o.name = found.value ∧
      o.methods = methodsOn found.value above ++
        ⟨if m.declared.type.text = "void" then none else some (TypeTree.parse m.declared.type.text),
          spacedTrees parameters⟩ :: methodsOn found.value below ∧
      o.constructors = primaryConstructor found ++
        (constructorsOn found.value above ++ constructorsOn found.value below) ∧
      o.memberTypes = memberTypesOn found.value above ++ memberTypesOn found.value below := by
  obtain ⟨o, ho, hname, hconstructors, hmethods, hmembers⟩ :=
    ofLines?_declared h (above ++ m.fullLine inside parameters rest :: below)
  have hline := declaredOn_fullLine m inside parameters rest hkeyword hword found.value
  rw [constructorsOn_insert, hline] at hconstructors
  rw [methodsOn_insert, hline] at hmethods
  rw [memberTypesOn_insert, hline] at hmembers
  exact ⟨o, ho, hname, hmethods, hconstructors, hmembers⟩

def makeMethod : MethodText where
  tags := [⟨"Test", by decide, by decide, space⟩]
  fewTags := by decide
  visibility := ⟨"protected", by decide, space, space_ne⟩
  visible := by decide
  more := [⟨"internal", by decide, space, space_ne⟩]
  fewMore := by decide
  moreVisible := by decide
  modifiers := [⟨"static", by decide, space, space_ne⟩, ⟨"virtual", by decide, space, space_ne⟩]
  fewModifiers := by decide
  listed := by decide
  declared :=
    { type :=
        { head := .tuple "A a, List<B> b" (by decide) (by decide) (by decide)
          nullable := true
          ranks := []
          few := by decide
          nullableArray := false }
      gap := space
      gap_ne := space_ne
      name := "Make"
      isRun := by decide
      fits := by decide }
  tail := ⟨nothing, some ⟨"T, U", by decide, by decide, nothing⟩⟩

def mapParameter : SpacedParameter where
  type :=
    { shape := .generic ⟨"Map", by decide⟩ (.one (.mk nothing (.plain ⟨"Key", by decide⟩) [] none nothing))
      marks := [] }
  name := ⟨"m", by decide⟩
  chars := by decide
  unmodified := by decide
  before := nothing
  gap := space
  gap_ne := space_ne
  after := nothing

/-- a tuple for the result, after words that could be a result and a name themselves -/
theorem ofLines?_methodLine_make :
    ∃ found, Source.classMatch? ("class Foo \x7b" : Text) = some found ∧
      makeMethod.fullLine nothing [mapParameter] " where T : U;" =
        ("[Test] protected internal static virtual (A a, List<B> b)? Make<T, U>(Map<Key> m) where T : U;" : Text) ∧
      ∃ o, Outline.ofLines? ["class Foo \x7b", makeMethod.fullLine nothing [mapParameter] " where T : U;"] = some o ∧
        o.methods = [⟨some (TypeTree.parse "(A a, List<B> b)?"), [.node "Map" [.leaf "Key"]]⟩] ∧
        o.constructors = [] ∧ o.memberTypes = [] := by
  have hend : Stops Text.isWord [' ', '{'] := stops_cons (by decide) _
  have hn : IsRun isNameChar ("Foo" : Text) := by decide
  obtain ⟨taken, hfirst⟩ := Source.first?_classPattern hn (by decide) hend
  have hfound := classMatch?_modifiers hfirst (List.cons_ne_nil _ _) []
  obtain ⟨o, ho, -, hmethods, hconstructors, hmembers⟩ :=
    ofLines?_methodLine hfound [] [] makeMethod nothing [mapParameter] " where T : U;" (by decide) (by decide)
  exact ⟨_, hfound, by decide, o, ho, hmethods, hconstructors, hmembers⟩

/-- the names in the parameters of the methods of a class with this line -/
def parameterNames? (line : Text) : Option (List (List Text)) :=
  (Outline.ofLines? ["class Foo \x7b", line]).map fun o => o.methods.map fun m => m.parameters.flatMap TypeTree.names

/-- the bounds are needed, for the type parameters and for the name, and so is a type that is no modifier -/
theorem method_misread :
    (¬ ∀ inner, IsRun isNameChar inner →
      parameterNames? (("public void Bar<" : Text) ++ inner ++ (">(Baz b) \x7b" : Text)) = some [[("Baz" : Text)]]) ∧
    (¬ ∀ name, IsRun isNameChar name →
      parameterNames? (("public void " : Text) ++ name ++ ("(Baz b) \x7b" : Text)) = some [[("Baz" : Text)]]) ∧
    ¬ ∀ type, IsRun isNameChar type →
      parameterNames? (("public void Bar(" : Text) ++ type ++ (" x) \x7b" : Text)) = some [[type]] := by
  refine ⟨fun h => ?_, fun h => ?_, fun h => ?_⟩
  · exact absurd (h (List.replicate 129 'A') (by decide +kernel)) (by decide +kernel)
  · exact absurd (h (List.replicate 129 'A') (by decide +kernel)) (by decide +kernel)
  · exact absurd (h "scoped" (by decide)) (by decide +kernel)

end ClassAtlas.Signature
