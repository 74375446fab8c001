/-
Lines that declare a field or a property.

Such a line holds attributes, modifiers, a type, a name and a character that ends the declaration; after that anything
may stand. `MemberText` is this grammar, with the bounds of the patterns. A match of a pattern takes a text of the
grammar (`exists_of_mem_pattern`), and every text of the grammar is taken by some match (`exists_mem_pattern`). A line is
put together in one way only, as far as type, name, ending and rest go (`MemberText.inj`): the ending is the first
character that cannot belong to a type, the name is the last word before it, and no type is a word with a type after it.
So all matches agree, whichever of them is preferred, and a line with the ending of a property is no field. What is found
is the text of the type (`memberTypeText?_line`).
-/
import ClassAtlas.Proofs.Signature.BoundedType
import ClassAtlas.Proofs.Written.Member

namespace ClassAtlas.Signature

open Pattern
open Outline (attributeTag attributes typeAndName fieldModifiers propertyModifiers fieldPattern propertyPattern
  declaredType? memberType?)
open Text (Blanks EndsSolid nothing space space_ne)

/-! ## Where a word or a type starts -/

/-- the text starts as a word or a type does, or is empty -/
def Opens (s : Text) : Prop := ∀ c ∈ s.head?, isNameStart c = true ∨ c = '('

theorem Opens.stops {s : Text} (h : Opens s) {test : Char → Bool} (hname : ∀ c, isNameChar c = true → test c = false)
    (hparen : test '(' = false) : Stops test s := by
  intro c hc
  rcases h c hc with hstart | rfl
  · exact hname c (isNameChar_of_isNameStart hstart)
  · exact hparen

theorem Opens.stops_isBlank {s : Text} (h : Opens s) : Stops Text.isBlank s :=
  h.stops (fun _ => Text.not_isBlank_of_isNameChar) (by decide)

theorem Opens.stops_char {s : Text} (h : Opens s) {d : Char} (hname : isNameChar d = false) (hparen : d ≠ '(') :
    Stops (· == d) s := by
  refine h.stops (fun c hc => ?_) (by simpa using hparen.symm)
  refine beq_eq_false_iff_ne.2 fun he => ?_
  rw [← he, hc] at hname
  contradiction

theorem opens_type (t : BoundedType) (tail : Text) : Opens (t.text ++ tail) := by
  obtain ⟨c, rest, htext, hc⟩ := t.exists_first
  rw [htext]
  rintro d hd
  obtain rfl : c = d := by simpa using hd
  exact hc

theorem opens_run {w : Text} (hw : IsRun isNameChar w) (tail : Text) : Opens (w ++ tail) := by
  obtain ⟨c, rest, rfl, hc, -⟩ := hw
  rintro d hd
  obtain rfl : c = d := by simpa using hd
  exact Or.inl hc

/-- after a gap no run goes on that holds no blanks -/
theorem stops_gap {test : Char → Bool} (htest : ∀ c, Text.isBlank c = true → test c = false) {gap : Blanks}
    (hne : gap.1 ≠ []) (tail : Text) : Stops test (gap.1 ++ tail) := by
  obtain ⟨b, more, hgap⟩ := List.exists_cons_of_ne_nil hne
  rw [hgap]
  exact stops_cons (htest b (gap.2 b (hgap ▸ List.mem_cons_self))) _

theorem mem_blanks (gap : Blanks) {tail : Text} (ht : Stops Text.isBlank tail) :
    ⟨(), gap.1, tail⟩ ∈ blanks (gap.1 ++ tail) := by
  rw [blanks, spanAll_append gap.2 ht (Nat.zero_le _)]
  exact List.mem_singleton_self _

/-! ## Attributes -/

/-- an attribute and the blanks after it -/
structure Tag where
  inner : Text
  free : ']' ∉ inner
  fits : inner.length ≤ 128
  after : Blanks

def Tag.text (t : Tag) : Text := '[' :: (t.inner ++ ']' :: t.after.1)

def tagsText (tags : List Tag) : Text := tags.flatMap Tag.text

theorem exists_of_mem_attributeTag {s t r : Text} {u : Unit} (h : ⟨u, t, r⟩ ∈ attributeTag s) :
    s = t ++ r ∧ ∃ tag : Tag, t = tag.text := by
  obtain ⟨_, _, _, _, hopen, hinside, rfl⟩ := mem_bind.1 h
  obtain ⟨_, inner, _, _, hspan, hclosed, rfl⟩ := mem_bind.1 hinside
  obtain ⟨_, _, _, after, hclose, hblanks, rfl⟩ := mem_bind.1 hclosed
  obtain ⟨c, hc, rfl, rfl⟩ := mem_satisfy.1 hopen
  obtain ⟨rfl, hfree, -, hfits⟩ := mem_span hspan
  obtain ⟨d, hd, rfl, rfl⟩ := mem_satisfy.1 hclose
  obtain ⟨rfl, hblank, -⟩ := mem_spanAll hblanks
  obtain rfl : c = '[' := by simpa using hc
  obtain rfl : d = ']' := by simpa using hd
  exact ⟨by simp, ⟨inner, fun hm => by simpa using hfree _ hm, hfits, ⟨after, hblank⟩⟩, rfl⟩

theorem attributeTag_text (tag : Tag) {tail : Text} (ht : Stops Text.isBlank tail) :
    attributeTag (tag.text ++ tail) = [⟨(), tag.text, tail⟩] := by
  have htext : tag.text ++ tail = '[' :: (tag.inner ++ ']' :: (tag.after.1 ++ tail)) := by simp [Tag.text]
  have hinner : ∀ c ∈ tag.inner, (c != ']') = true := fun c hc => bne_iff_ne.2 fun he => tag.free (he ▸ hc)
  have hspan : span (· != ']') 0 128 (tag.inner ++ ']' :: (tag.after.1 ++ tail)) =
      [⟨(), tag.inner, ']' :: (tag.after.1 ++ tail)⟩] :=
    span_append hinner (stops_cons (by decide) _) (Nat.zero_le _) tag.fits
  have hblanks : blanks (tag.after.1 ++ tail) = [⟨(), tag.after.1, tail⟩] :=
    spanAll_append tag.after.2 ht (Nat.zero_le _)
  rw [htext, attributeTag, bind_singleton (char_cons '[' _), bind_singleton hspan, bind_singleton (char_cons ']' _),
    hblanks]
  rfl

theorem exists_of_mem_attributes {s t r : Text} {u : Unit} (h : ⟨u, t, r⟩ ∈ attributes s) :
    s = t ++ r ∧ ∃ tags : List Tag, tags.length ≤ 3 ∧ t = tagsText tags :=
  exists_parts_of_mem_upTo exists_of_mem_attributeTag h

theorem stops_isBlank_tag (tag : Tag) (tail : Text) : Stops Text.isBlank (tag.text ++ tail) := stops_cons (by decide) _

theorem mem_attributes {tags : List Tag} (hfew : tags.length ≤ 3) {tail : Text} (ht : Stops Text.isBlank tail) :
    ⟨(), tagsText tags, tail⟩ ∈ attributes (tagsText tags ++ tail) := by
  refine mem_upTo_flatMap (Stops Text.isBlank) (fun tag _ tail ht => ?_) (fun tag _ => stops_isBlank_tag tag) hfew ht
  rw [attributeTag_text tag ht]
  exact List.mem_singleton_self _

theorem stops_isBlank_tagsText (tags : List Tag) {tail : Text} (ht : Stops Text.isBlank tail) :
    Stops Text.isBlank (tagsText tags ++ tail) :=
  follows_flatMap (fun tag _ => stops_isBlank_tag tag) ht

/-- attributes end where the rest of a line starts -/
theorem tagsText_inj {tags tags' : List Tag} {s s' : Text} (hs : Opens s) (hs' : Opens s')
    (h : tagsText tags ++ s = tagsText tags' ++ s') : s = s' := by
  have hnone : ∀ {tag : Tag} {tail s : Text}, Opens s → s ≠ tag.text ++ tail := by
    rintro tag tail s hs rfl
    exact absurd (hs '[' rfl) (by decide)
  induction tags generalizing tags' with
  | nil =>
    cases tags' with
    | nil => exact h
    | cons tag' tags' =>
      rw [tagsText, tagsText, List.flatMap_cons, List.append_assoc] at h
      exact absurd h (hnone hs)
  | cons tag tags ih =>
    cases tags' with
    | nil =>
      rw [tagsText, tagsText, List.flatMap_cons, List.append_assoc] at h
      exact absurd h.symm (hnone hs')
    | cons tag' tags' =>
      have htext : tag.inner ++ ']' :: (tag.after.1 ++ (tagsText tags ++ s)) =
          tag'.inner ++ ']' :: (tag'.after.1 ++ (tagsText tags' ++ s')) := by
        simpa [tagsText, Tag.text] using h
      have hfree : ∀ (tag : Tag), ∀ c ∈ tag.inner, (c == ']') = false :=
        fun tag c hc => beq_eq_false_iff_ne.2 fun he => tag.free (he ▸ hc)
      obtain ⟨-, -, hafter⟩ := Text.first_inj (hfree tag) (by decide) (hfree tag') (by decide) htext
      exact ih (run_inj tag.after.2 (stops_isBlank_tagsText tags hs.stops_isBlank) tag'.after.2
        (stops_isBlank_tagsText tags' hs'.stops_isBlank) hafter).2

/-! ## Words -/

/-- a word and the blanks after it -/
structure SpacedWord where
  word : Text
  isRun : IsRun isNameChar word
  gap : Blanks
  gap_ne : gap.1 ≠ []

def SpacedWord.text (w : SpacedWord) : Text := w.word ++ w.gap.1

def wordsText (words : List SpacedWord) : Text := words.flatMap SpacedWord.text

theorem wordsText_cons (w : SpacedWord) (words : List SpacedWord) (s : Text) :
    wordsText (w :: words) ++ s = w.word ++ (w.gap.1 ++ (wordsText words ++ s)) := by
  simp [wordsText, SpacedWord.text]

theorem SpacedWord.opens (w : SpacedWord) (tail : Text) : Opens (w.text ++ tail) := by
  rw [SpacedWord.text, List.append_assoc]
  exact opens_run w.isRun _

section WordList

variable {list : List Text} (hlist : ∀ w ∈ list, IsRun isNameChar w)
include hlist

theorem exists_of_mem_wordAndBlanks {s t r : Text} {u : Unit} (h : ⟨u, t, r⟩ ∈ wordAndBlanks list s) :
    s = t ++ r ∧ ∃ w : SpacedWord, w.word ∈ list ∧ t = w.text := by
  obtain ⟨_, _, _, gap, hword, hgap, rfl⟩ := mem_bind.1 h
  obtain ⟨w, hw, hliteral⟩ := List.mem_flatMap.1 hword
  obtain ⟨rfl, rfl⟩ := mem_literal.1 hliteral
  obtain ⟨rfl, hblank, hleast⟩ := mem_spanAll hgap
  exact ⟨(List.append_assoc _ _ _).symm, ⟨_, hlist _ hw, ⟨gap, hblank⟩, List.length_pos_iff.1 hleast⟩, hw, rfl⟩

theorem exists_of_mem_words {n : Nat} {s t r : Text} {u : Unit} (h : ⟨u, t, r⟩ ∈ upTo n (wordAndBlanks list) s) :
    s = t ++ r ∧ ∃ words : List SpacedWord, words.length ≤ n ∧ (∀ w ∈ words, w.word ∈ list) ∧ t = wordsText words :=
  exists_of_mem_upTo (fun hword => exists_of_mem_wordAndBlanks hlist hword) h

end WordList

theorem mem_wordAndBlanks_text {list : List Text} {w : SpacedWord} (hw : w.word ∈ list) {tail : Text}
    (ht : Stops Text.isBlank tail) : ⟨(), w.text, tail⟩ ∈ wordAndBlanks list (w.text ++ tail) := by
  have hword : ⟨(), w.word, w.gap.1 ++ tail⟩ ∈ oneOf list (w.word ++ (w.gap.1 ++ tail)) :=
    List.mem_flatMap.2 ⟨w.word, hw, mem_literal.2 ⟨rfl, rfl⟩⟩
  have hgap : ⟨(), w.gap.1, tail⟩ ∈ someBlanks (w.gap.1 ++ tail) := by
    rw [someBlanks_append w.gap.2 w.gap_ne ht]
    exact List.mem_singleton_self _
  rw [SpacedWord.text, List.append_assoc]
  exact mem_bind_of hword hgap

theorem mem_words {list : List Text} {words : List SpacedWord} (hwords : ∀ w ∈ words, w.word ∈ list) {n : Nat}
    (hfew : words.length ≤ n) {tail : Text} (ht : Stops Text.isBlank tail) :
    ⟨(), wordsText words, tail⟩ ∈ upTo n (wordAndBlanks list) (wordsText words ++ tail) :=
  mem_upTo_flatMap (Stops Text.isBlank) (fun w hw _ => mem_wordAndBlanks_text (hwords w hw))
    (fun w _ tail => (w.opens tail).stops_isBlank) hfew ht

theorem opens_words (words : List SpacedWord) {s : Text} (hs : Opens s) : Opens (wordsText words ++ s) :=
  follows_flatMap (fun w _ tail => w.opens tail) hs

theorem isInner_wordsText {words : List SpacedWord} : IsInner (wordsText words) := by
  intro c hc
  obtain ⟨w, -, hw⟩ := List.mem_flatMap.1 hc
  rcases List.mem_append.1 hw with hword | hgap
  · exact isArgumentChar_of_isNameChar (w.isRun.nameChars c hword)
  · exact isArgumentChar_of_isBlank (w.gap.2 c hgap)

/-- a word and its blanks end where something else starts -/
theorem SpacedWord.inj {w w' : SpacedWord} {s s' : Text} (hs : Opens s) (hs' : Opens s')
    (h : w.word ++ (w.gap.1 ++ s) = w'.word ++ (w'.gap.1 ++ s')) : w.word = w'.word ∧ s = s' := by
  obtain ⟨hword, hgap⟩ := run_inj w.isRun.nameChars (stops_gap (fun _ => not_isNameChar_of_isBlank) w.gap_ne s)
    w'.isRun.nameChars (stops_gap (fun _ => not_isNameChar_of_isBlank) w'.gap_ne s') h
  exact ⟨hword, (run_inj w.gap.2 hs.stops_isBlank w'.gap.2 hs'.stops_isBlank hgap).2⟩

/-! ## Words before a type -/

/-- A type that starts with a word and blanks is that word: after the blanks only its arguments could follow. -/
theorem BoundedType.eq_word (t : BoundedType) {z s : Text} {w : SpacedWord} (hz : Stops isDottedChar z) (hs : Opens s)
    (h : t.text ++ z = w.word ++ (w.gap.1 ++ s)) : t.text = w.word ∧ z = w.gap.1 ++ s := by
  have hword : ∀ c ∈ w.word, isDottedChar c = true := fun c hc => by simp [isDottedChar, w.isRun.nameChars c hc]
  have hgap : Stops isDottedChar (w.gap.1 ++ s) := stops_gap (fun _ => not_isDottedChar_of_isBlank) w.gap_ne s
  have hmarks := t.stops_marks hz
  unfold text at h ⊢
  cases hhead : t.head with
  | tuple inner chars ne fits =>
    obtain ⟨c, rest, hcons, hc, -⟩ := w.isRun
    rw [hhead, hcons] at h
    obtain rfl : '(' = c := (List.cons.inj h).1
    exact absurd hc (by decide)
  | named name isName fits arguments =>
    cases arguments with
    | none =>
      have htext : name ++ (t.marks ++ z) = w.word ++ (w.gap.1 ++ s) := by simpa [hhead, BoundedHead.text] using h
      obtain ⟨hname, htail⟩ := run_inj isName.dottedChars hmarks hword hgap htext
      rcases t.marks_eq with hnone | ⟨c, rest, hsome, hc⟩
      · rw [hnone, List.nil_append] at htail
        exact ⟨by simp [BoundedHead.text, hnone, hname], htail⟩
      · -- a mark is no blank
        obtain ⟨b, more, hcons⟩ := List.exists_cons_of_ne_nil w.gap_ne
        rw [hsome, hcons] at htail
        obtain rfl : c = b := (List.cons.inj htail).1
        have hb := w.gap.2 c (hcons ▸ List.mem_cons_self)
        rcases hc with rfl | rfl <;> exact absurd hb (by decide)
    | some a =>
      have htext : name ++ (a.gap.1 ++ '<' :: (a.inner ++ '>' :: (t.marks ++ z))) = w.word ++ (w.gap.1 ++ s) := by
        simpa [hhead, BoundedHead.text, ArgumentText.text] using h
      obtain ⟨-, htail⟩ := run_inj isName.dottedChars (a.stops _) hword hgap htext
      obtain ⟨-, rfl⟩ := run_inj a.gap.2 (stops_cons (by decide) _) w.gap.2 hs.stops_isBlank htail
      exact absurd (hs '<' rfl) (by decide)

/-- a type after words does not start before them or among them -/
theorem words_type_inj {words words' : List SpacedWord} {t t' : BoundedType}
    (h : wordsText words ++ t.text = wordsText words' ++ t'.text) : t.text = t'.text := by
  have hnil : ∀ t : BoundedType, Opens t.text := fun t => by simpa using opens_type t []
  -- a type alone is no word with a type after it
  have halone : ∀ {t t' : BoundedType} {w : SpacedWord} {words : List SpacedWord},
      t.text ≠ wordsText (w :: words) ++ t'.text := by
    intro t t' w words he
    rw [wordsText_cons, ← List.append_nil t.text] at he
    obtain ⟨-, hgap⟩ := t.eq_word (stops_nil _) (opens_words words (hnil t')) he
    exact w.gap_ne (List.append_eq_nil_iff.1 hgap.symm).1
  induction words generalizing words' with
  | nil =>
    cases words' with
    | nil => exact h
    | cons w' words' => exact absurd h halone
  | cons w words ih =>
    cases words' with
    | nil => exact absurd h.symm halone
    | cons w' words' =>
      rw [wordsText_cons, wordsText_cons] at h
      exact ih (SpacedWord.inj (opens_words words (hnil t)) (opens_words words' (hnil t')) h).2

/-- a type between words is one of them -/
theorem exists_word_of_type {words words' : List SpacedWord} {t : BoundedType} {z : Text} (hz : Stops isDottedChar z)
    (h : wordsText words = wordsText words' ++ (t.text ++ z)) : ∃ w ∈ words, w.word = t.text := by
  have hempty : Opens [] := by simp [Opens]
  induction words' generalizing words with
  | nil =>
    cases words with
    | nil => exact absurd (List.append_eq_nil_iff.1 (show [] = t.text ++ z from h).symm).1 t.startsSolid.ne_nil
    | cons w words =>
      have hword : t.text ++ z = w.word ++ (w.gap.1 ++ (wordsText words ++ [])) := by
        rw [← wordsText_cons, List.append_nil, h]
        rfl
      obtain ⟨ht, -⟩ := t.eq_word hz (opens_words words hempty) hword
      exact ⟨w, List.mem_cons_self, ht.symm⟩
  | cons w' words' ih =>
    cases words with
    | nil =>
      have hne : w'.word ≠ [] := w'.isRun.ne_nil
      rw [wordsText_cons] at h
      exact absurd (List.append_eq_nil_iff.1 h.symm).1 hne
    | cons w words =>
      rw [← List.append_nil (wordsText (w :: words)), wordsText_cons, wordsText_cons] at h
      obtain ⟨-, hrest⟩ := SpacedWord.inj (opens_words words hempty) (opens_words words' (opens_type t z)) h
      rw [List.append_nil] at hrest
      obtain ⟨v, hv, ht⟩ := ih hrest
      exact ⟨v, List.mem_cons_of_mem w hv, ht⟩

/-! ## A type and a name -/

structure TypedName where
  type : BoundedType
  gap : Blanks
  gap_ne : gap.1 ≠ []
  name : Text
  isRun : IsRun isNameChar name
  fits : name.length ≤ 128

def TypedName.text (d : TypedName) : Text := d.type.text ++ (d.gap.1 ++ d.name)

theorem exists_of_mem_typeAndName {s t r : Text} {v : Text × Text} (h : ⟨v, t, r⟩ ∈ typeAndName s) :
    s = t ++ r ∧ ∃ d : TypedName, v = (d.type.text, d.name) ∧ t = d.text := by
  obtain ⟨_, _, _, _, htype, hafter, rfl⟩ := mem_bind.1 h
  obtain ⟨_, gap, _, _, hgap, hnamed, rfl⟩ := mem_bind.1 hafter
  obtain ⟨_, _, _, _, hname, hpure, rfl⟩ := mem_bind.1 hnamed
  obtain ⟨rfl, rfl, rfl⟩ := mem_pure.1 hpure
  obtain ⟨rfl, _, htype⟩ := mem_capture.1 htype
  obtain ⟨rfl, type, rfl⟩ := exists_of_mem_typeExpression htype
  obtain ⟨rfl, hblank, hleast⟩ := mem_spanAll hgap
  obtain ⟨rfl, _, hname⟩ := mem_capture.1 hname
  obtain ⟨rfl, hrun, hfits⟩ := mem_identifier hname
  refine ⟨by simp, ⟨type, ⟨gap, hblank⟩, List.length_pos_iff.1 hleast, _, hrun, hfits⟩, ?_, ?_⟩
  · rw [type.trim_text]
  · simp [TypedName.text]

theorem mem_typeAndName (d : TypedName) {tail : Text} (ht : Stops isNameChar tail) :
    ⟨(d.type.text, d.name), d.text, tail⟩ ∈ typeAndName (d.text ++ tail) := by
  have htype : ⟨d.type.text, d.type.text, d.gap.1 ++ (d.name ++ tail)⟩ ∈
      capture typeExpression (d.type.text ++ (d.gap.1 ++ (d.name ++ tail))) := by
    refine mem_capture.2 ⟨rfl, (), mem_typeExpression d.type ?_⟩
    exact stops_gap (fun _ => not_isDottedChar_of_isBlank) d.gap_ne _
  have hgap : ⟨(), d.gap.1, d.name ++ tail⟩ ∈ someBlanks (d.gap.1 ++ (d.name ++ tail)) := by
    rw [someBlanks_append d.gap.2 d.gap_ne (d.isRun.stops_isBlank tail)]
    exact List.mem_singleton_self _
  have hname : ⟨d.name, d.name, tail⟩ ∈ capture identifier (d.name ++ tail) := by
    refine mem_capture.2 ⟨rfl, (), ?_⟩
    rw [identifier_append d.isRun d.fits ht]
    exact List.mem_singleton_self _
  have htext : d.text ++ tail = d.type.text ++ (d.gap.1 ++ (d.name ++ tail)) := by simp [TypedName.text]
  rw [htext]
  have hpure : ⟨(d.type.text, d.name), [], tail⟩ ∈ (pure (Text.trim d.type.text, d.name) : Pattern _) tail :=
    mem_pure.2 ⟨by rw [d.type.trim_text], rfl, rfl⟩
  have hnamed : ⟨(d.type.text, d.name), d.name ++ [], tail⟩ ∈
      (capture identifier >>= fun declared => pure (Text.trim d.type.text, declared)) (d.name ++ tail) :=
    mem_bind_of hname hpure
  rw [List.append_nil] at hnamed
  exact mem_bind_of htype (mem_bind_of hgap hnamed)

/-- a name at the end of a text, with blanks before it -/
theorem lastName_inj {a a' : Text} {gap gap' : Blanks} {name name' : Text} (ha : EndsSolid a) (ha' : EndsSolid a')
    (hgap : gap.1 ≠ []) (hgap' : gap'.1 ≠ []) (hname : ∀ c ∈ name, isNameChar c = true)
    (hname' : ∀ c ∈ name', isNameChar c = true) (h : a ++ (gap.1 ++ name) = a' ++ (gap'.1 ++ name')) :
    a = a' ∧ name = name' := by
  -- the last blank stands right before the name
  have hlast : ∀ {gap : Blanks}, gap.1 ≠ [] → ∃ more : Blanks, ∃ b, gap.1 = more.1 ++ [b] ∧ Text.isBlank b = true := by
    intro gap hne
    have hmore : ∀ c ∈ gap.1.dropLast, Text.isBlank c = true := fun c hc => gap.2 c (List.dropLast_subset gap.1 hc)
    exact ⟨⟨_, hmore⟩, _, (List.dropLast_concat_getLast hne).symm, gap.2 _ (List.getLast_mem hne)⟩
  obtain ⟨more, b, hmore, hb⟩ := hlast hgap
  obtain ⟨more', b', hmore', hb'⟩ := hlast hgap'
  have htext : a ++ more.1 ++ b :: name = a' ++ more'.1 ++ b' :: name' := by simpa [hmore, hmore'] using h
  have hsplit := Text.last_inj (p := fun c => !isNameChar c) (fun c hc => by simp [hname c hc])
    (by simp [not_isNameChar_of_isBlank hb]) (fun c hc => by simp [hname' c hc])
    (by simp [not_isNameChar_of_isBlank hb']) htext
  refine ⟨?_, hsplit.2.2⟩
  rw [← Text.trimEnd_append ha more.2, hsplit.1, Text.trimEnd_append ha' more'.2]

/-- ends with a character of a name -/
def EndsName (s : Text) : Prop := ∃ before c, s = before ++ [c] ∧ isNameChar c = true

theorem EndsName.endsSolid {s : Text} (h : EndsName s) : EndsSolid s := by
  obtain ⟨before, c, rfl, hc⟩ := h
  exact ⟨before, c, rfl, Text.not_isBlank_of_isNameChar hc⟩

theorem EndsName.append {b : Text} (a : Text) (h : EndsName b) : EndsName (a ++ b) := by
  obtain ⟨before, c, rfl, hc⟩ := h
  exact ⟨a ++ before, c, by simp, hc⟩

namespace TypedName

variable (d : TypedName)

theorem opens (tail : Text) : Opens (d.text ++ tail) := by
  rw [text, List.append_assoc]
  exact opens_type _ _

theorem endsName : EndsName d.text := by
  have hne := d.isRun.ne_nil
  have hname : EndsName d.name :=
    ⟨_, _, (List.dropLast_concat_getLast hne).symm, d.isRun.nameChars _ (List.getLast_mem hne)⟩
  exact (hname.append d.gap.1).append d.type.text

theorem isInner_tail {tail : Text} (ht : IsInner tail) : IsInner (d.gap.1 ++ d.name ++ tail) := by
  have hname : IsInner d.name := fun c hc => isArgumentChar_of_isNameChar (d.isRun.nameChars c hc)
  exact ((isInner_blanks d.gap).append hname).append ht

/-- the type does not go on into the name -/
theorem stops_tail (tail : Text) : Stops isDottedChar (d.gap.1 ++ d.name ++ tail) := by
  rw [List.append_assoc]
  exact stops_gap (fun _ => not_isDottedChar_of_isBlank) d.gap_ne _

end TypedName

/-- words, a type and a name with nothing behind them -/
theorem words_declared_inj {words words' : List SpacedWord} {d d' : TypedName}
    (h : wordsText words ++ d.text = wordsText words' ++ d'.text) : d.type.text = d'.type.text ∧ d.name = d'.name := by
  have htext : wordsText words ++ d.type.text ++ (d.gap.1 ++ d.name) =
      wordsText words' ++ d'.type.text ++ (d'.gap.1 ++ d'.name) := by
    simpa [TypedName.text] using h
  obtain ⟨htype, hname⟩ := lastName_inj (d.type.endsSolid.append _) (d'.type.endsSolid.append _) d.gap_ne d'.gap_ne
    d.isRun.nameChars d'.isRun.nameChars htext
  exact ⟨words_type_inj htype, hname⟩

/-! ## The end of a declaration -/

/-- Two types with texts before them and after them that could stand between brackets, each up to a character that could
not: the texts agree, or that character opens a tuple of the other one. -/
theorem frame_cases {t t' : BoundedType} {p q r p' q' r' : Text} {c c' : Char} (hp : IsInner p) (hq : IsInner q)
    (hc : isArgumentChar c = false) (hp' : IsInner p') (hq' : IsInner q') (hc' : isArgumentChar c' = false)
    (h : p ++ (t.text ++ (q ++ c :: r)) = p' ++ (t'.text ++ (q' ++ c' :: r'))) :
    (p ++ (t.text ++ q) = p' ++ (t'.text ++ q') ∧ c = c' ∧ r = r') ∨
      (c = '(' ∧ p' = p ++ (t.text ++ q)) ∨ (c' = '(' ∧ p = p' ++ (t'.text ++ q') ∧ t.text.head? = some '(') := by
  have hopens : isArgumentChar '(' = false := by decide
  have hcloses : isArgumentChar ')' = false := by decide
  rcases t.cases_text with ht | ⟨inner, hinner, ht⟩
  · have hbefore := hp.append (ht.append hq)
    rcases t'.cases_text with ht' | ⟨inner', hinner', ht'⟩
    · have htext : p ++ (t.text ++ q) ++ c :: r = p' ++ (t'.text ++ q') ++ c' :: r' := by simpa using h
      exact Or.inl (hbefore.first_inj hc (hp'.append (ht'.append hq')) hc' htext)
    · have htext : p ++ (t.text ++ q) ++ c :: r = p' ++ '(' :: (inner' ++ ')' :: (t'.marks ++ (q' ++ c' :: r'))) := by
        simpa [ht'] using h
      obtain ⟨hwords, hopen, -⟩ := hbefore.first_inj hc hp' hopens htext
      exact Or.inr (Or.inl ⟨hopen, hwords.symm⟩)
  · rcases t'.cases_text with ht' | ⟨inner', hinner', ht'⟩
    · have htext : p ++ '(' :: (inner ++ ')' :: (t.marks ++ (q ++ c :: r))) = p' ++ (t'.text ++ q') ++ c' :: r' := by
        simpa [ht] using h
      obtain ⟨hwords, hopen, -⟩ := hp.first_inj hopens (hp'.append (ht'.append hq')) hc' htext
      exact Or.inr (Or.inr ⟨hopen.symm, hwords, by rw [ht]; rfl⟩)
    · have htext : p ++ '(' :: (inner ++ ')' :: (t.marks ++ q ++ c :: r)) =
          p' ++ '(' :: (inner' ++ ')' :: (t'.marks ++ q' ++ c' :: r')) := by
        simpa [ht, ht'] using h
      obtain ⟨rfl, -, hinside⟩ := hp.first_inj hopens hp' hopens htext
      obtain ⟨rfl, -, hafter⟩ := hinner.first_inj hcloses hinner' hcloses hinside
      obtain ⟨hmarks, hends, hrest⟩ :=
        (t.isInner_marks.append hq).first_inj hc (t'.isInner_marks.append hq') hc' hafter
      refine Or.inl ⟨?_, hends, hrest⟩
      simp [ht, ht', hmarks]

/-! ## Fields and properties -/

inductive MemberKind where
  | field
  | property
deriving DecidableEq

namespace MemberKind

def modifiers : MemberKind → List Text
  | field => fieldModifiers
  | property => propertyModifiers

def ends : MemberKind → Char → Bool
  | field => fun c => c == '=' || c == ';'
  | property => (· == '{')

def pattern : MemberKind → Pattern (Text × Text)
  | field => fieldPattern
  | property => propertyPattern

theorem pattern_eq (kind : MemberKind) : kind.pattern = (do
    attributes
    upTo 6 (wordAndBlanks kind.modifiers)
    let declared ← typeAndName
    blanks
    satisfy kind.ends
    return declared) := by
  cases kind with
  | field => rfl
  | property => rfl

theorem isRun_modifiers (kind : MemberKind) : ∀ w ∈ kind.modifiers, IsRun isNameChar w := by
  cases kind with
  | field => exact Written.isRun_fieldModifiers
  | property =>
    have hnames : Written.AreNames propertyModifiers := by decide
    exact Written.isRun_of_mem hnames (by decide)

variable {kind kind' : MemberKind}

theorem not_isArgumentChar_of_ends {c : Char} (h : kind.ends c = true) : isArgumentChar c = false ∧ c ≠ '(' := by
  cases kind with
  | field =>
    simp only [ends, Bool.or_eq_true, beq_iff_eq] at h
    rcases h with rfl | rfl <;> decide
  | property =>
    obtain rfl : c = '{' := by simpa [ends] using h
    decide

theorem eq_of_ends {c : Char} (h : kind.ends c = true) (h' : kind'.ends c = true) : kind = kind' := by
  cases kind <;> cases kind' <;> grind [ends]

end MemberKind

/-- a declaration up to the character that ends it -/
structure MemberText (kind : MemberKind) where
  tags : List Tag
  fewTags : tags.length ≤ 3
  words : List SpacedWord
  fewWords : words.length ≤ 6
  listed : ∀ w ∈ words, w.word ∈ kind.modifiers
  declared : TypedName
  gap : Blanks
  ending : Char
  ends : kind.ends ending = true

variable {kind kind' : MemberKind}

/-- the line on which a text stands behind the declaration -/
def MemberText.line (m : MemberText kind) (rest : Text) : Text :=
  tagsText m.tags ++ (wordsText m.words ++ (m.declared.text ++ (m.gap.1 ++ m.ending :: rest)))

theorem exists_of_mem_pattern {s t r : Text} {v : Text × Text} (h : ⟨v, t, r⟩ ∈ kind.pattern s) :
    ∃ m : MemberText kind, s = m.line r ∧ v = (m.declared.type.text, m.declared.name) := by
  rw [kind.pattern_eq] at h
  obtain ⟨_, _, _, _, htags, h, -⟩ := mem_bind.1 h
  obtain ⟨_, _, _, _, hwords, h, -⟩ := mem_bind.1 h
  obtain ⟨_, _, _, _, hdeclared, h, -⟩ := mem_bind.1 h
  obtain ⟨_, gap, _, _, hgap, h, -⟩ := mem_bind.1 h
  obtain ⟨_, _, _, _, hend, h, -⟩ := mem_bind.1 h
  obtain ⟨rfl, -, rfl⟩ := mem_pure.1 h
  obtain ⟨rfl, tags, fewTags, rfl⟩ := exists_of_mem_attributes htags
  obtain ⟨rfl, words, fewWords, listed, rfl⟩ := exists_of_mem_words kind.isRun_modifiers hwords
  obtain ⟨rfl, declared, hv, rfl⟩ := exists_of_mem_typeAndName hdeclared
  obtain ⟨rfl, hblank, -⟩ := mem_spanAll hgap
  obtain ⟨c, hc, -, rfl⟩ := mem_satisfy.1 hend
  exact ⟨⟨tags, fewTags, words, fewWords, listed, declared, ⟨gap, hblank⟩, c, hc⟩, rfl, hv⟩

theorem stops_blanks_cons {test : Char → Bool} (htest : ∀ c, Text.isBlank c = true → test c = false) (gap : Blanks)
    {c : Char} (hc : test c = false) (rest : Text) : Stops test (gap.1 ++ c :: rest) := by
  by_cases hne : gap.1 = []
  · rw [hne]
    exact stops_cons hc rest
  · exact stops_gap htest hne _

theorem exists_mem_pattern (m : MemberText kind) (rest : Text) :
    ∃ t, ⟨(m.declared.type.text, m.declared.name), t, rest⟩ ∈ kind.pattern (m.line rest) := by
  obtain ⟨hend, -⟩ := MemberKind.not_isArgumentChar_of_ends m.ends
  obtain ⟨-, hname, hblank, -⟩ := of_not_isArgumentChar hend
  have hgap := mem_blanks m.gap (stops_cons hblank rest)
  have hdeclared := mem_typeAndName m.declared
    (stops_blanks_cons (fun _ => not_isNameChar_of_isBlank) m.gap hname rest)
  have hopens := m.declared.opens (m.gap.1 ++ m.ending :: rest)
  have hwords := mem_words m.listed m.fewWords hopens.stops_isBlank
  have htags := mem_attributes m.fewTags (opens_words m.words hopens).stops_isBlank
  have hends : ⟨(), [m.ending], rest⟩ ∈ satisfy kind.ends (m.ending :: rest) := mem_satisfy.2 ⟨_, m.ends, rfl, rfl⟩
  rw [kind.pattern_eq]
  exact ⟨_, mem_bind_of htags (mem_bind_of hwords (mem_bind_of hdeclared (mem_bind_of hgap (mem_bind_of hends
    (mem_pure.2 ⟨rfl, rfl, rfl⟩)))))⟩

theorem MemberText.opens (m : MemberText kind) (rest : Text) :
    Opens (wordsText m.words ++ (m.declared.text ++ (m.gap.1 ++ m.ending :: rest))) :=
  opens_words m.words (m.declared.opens _)

theorem MemberText.frame_eq (m : MemberText kind) (rest : Text) :
    wordsText m.words ++ (m.declared.text ++ (m.gap.1 ++ m.ending :: rest)) = wordsText m.words ++
      (m.declared.type.text ++ (m.declared.gap.1 ++ m.declared.name ++ m.gap.1 ++ m.ending :: rest)) := by
  simp [TypedName.text]

/-- **a line is put together in one way**, as far as type, name, ending and rest go -/
theorem MemberText.inj (m : MemberText kind) (m' : MemberText kind') {rest rest' : Text}
    (h : m.line rest = m'.line rest') :
    m.declared.type.text = m'.declared.type.text ∧ m.declared.name = m'.declared.name ∧ m.ending = m'.ending ∧
      rest = rest' := by
  obtain ⟨hend, hopen⟩ := MemberKind.not_isArgumentChar_of_ends m.ends
  obtain ⟨hend', hopen'⟩ := MemberKind.not_isArgumentChar_of_ends m'.ends
  have hafter := tagsText_inj (m.opens rest) (m'.opens rest') h
  rw [m.frame_eq, m'.frame_eq] at hafter
  obtain ⟨hbefore, hending, hrest⟩ | ⟨he, -⟩ | ⟨he, -⟩ := frame_cases isInner_wordsText
    (m.declared.isInner_tail (isInner_blanks m.gap)) hend isInner_wordsText
    (m'.declared.isInner_tail (isInner_blanks m'.gap)) hend' hafter
  · have hdeclared : wordsText m.words ++ m.declared.text = wordsText m'.words ++ m'.declared.text := by
      have htext : wordsText m.words ++ m.declared.text ++ m.gap.1 =
          wordsText m'.words ++ m'.declared.text ++ m'.gap.1 := by simpa [TypedName.text] using hbefore
      rw [← Text.trimEnd_append (m.declared.endsName.append _).endsSolid m.gap.2, htext,
        Text.trimEnd_append (m'.declared.endsName.append _).endsSolid m'.gap.2]
    obtain ⟨htype, hname⟩ := words_declared_inj hdeclared
    exact ⟨htype, hname, hending, hrest⟩
  · exact absurd he hopen
  · exact absurd he hopen'

/-- a pattern reads the type and the name, and goes on after the ending -/
theorem reads_pattern (m : MemberText kind) (rest : Text) :
    Reads kind.pattern (m.line rest) (m.declared.type.text, m.declared.name) rest := by
  obtain ⟨t, hmatch⟩ := exists_mem_pattern m rest
  refine reads_of_unique hmatch fun v _ r hother => ?_
  obtain ⟨m', hline, rfl⟩ := exists_of_mem_pattern hother
  obtain ⟨htype, hname, -, hrest⟩ := m.inj m' hline
  exact ⟨by rw [htype, hname], hrest.symm⟩

/-- a line with the ending of one kind is none of the other -/
theorem pattern_eq_nil (m : MemberText kind) (hkind : kind ≠ kind') (rest : Text) :
    kind'.pattern (m.line rest) = [] := by
  refine List.eq_nil_iff_forall_not_mem.2 fun found hfound => hkind ?_
  obtain ⟨m', hline, -⟩ := exists_of_mem_pattern hfound
  obtain ⟨-, -, hending, -⟩ := m.inj m' hline
  exact MemberKind.eq_of_ends m.ends (hending ▸ m'.ends)

/-! ## What is read off a line -/

/-- the type of the field, or else of the property, as it is written -/
def memberTypeText? (line : Text) : Option Text :=
  [fieldPattern, propertyPattern].findSome? fun p => declaredType? p line

theorem memberType?_eq (line : Text) : memberType? line = (memberTypeText? line).map TypeTree.parse := rfl

theorem declaredType?_eq_none {p : Pattern (Text × Text)} {line : Text} (h : p line = []) :
    declaredType? p line = none := by
  simp [declaredType?, Pattern.first?, h]

theorem declaredType?_pattern (m : MemberText kind) (rest : Text)
    (htype : Vocabulary.isNonTypeWord m.declared.type.text = false)
    (hname : Vocabulary.isNonTypeWord m.declared.name = false) :
    declaredType? kind.pattern (m.line rest) = some m.declared.type.text := by
  obtain ⟨taken, hfirst⟩ := reads_pattern m rest
  simp [declaredType?, hfirst, htype, hname]

/-- **the line of a field or a property is read exactly**: what is found is the text of the type -/
theorem memberTypeText?_line (m : MemberText kind) (rest : Text)
    (htype : Vocabulary.isNonTypeWord m.declared.type.text = false)
    (hname : Vocabulary.isNonTypeWord m.declared.name = false) :
    memberTypeText? (m.line rest) = some m.declared.type.text ∧
      memberType? (m.line rest) = some (TypeTree.parse m.declared.type.text) := by
  have hfound := declaredType?_pattern m rest htype hname
  have htext : memberTypeText? (m.line rest) = some m.declared.type.text := by
    cases kind with
    | field =>
      have hfield : declaredType? fieldPattern (m.line rest) = some m.declared.type.text := hfound
      simp [memberTypeText?, hfield]
    | property =>
      have hproperty : declaredType? propertyPattern (m.line rest) = some m.declared.type.text := hfound
      have hfield : declaredType? fieldPattern (m.line rest) = none :=
        declaredType?_eq_none (pattern_eq_nil m (show MemberKind.property ≠ .field by decide) rest)
      simp [memberTypeText?, hfield, hproperty]
  exact ⟨htext, by rw [memberType?_eq, htext, Option.map_some]⟩

def lookupField : MemberText .field where
  tags := [⟨"Column(\"a[0\")", by decide, by decide, space⟩]
  fewTags := by decide
  words := [⟨"public", by decide, space, space_ne⟩, ⟨"readonly", by decide, space, space_ne⟩]
  fewWords := by decide
  listed := by decide
  declared :=
    { type :=
        { head := .named "Dictionary" (by decide) (by decide)
            (some ⟨nothing, "string, List<int>", by decide, by decide⟩)
          nullable := true
          ranks := [⟨",", by decide⟩]
          few := by decide
          nullableArray := false }
      gap := space
      gap_ne := space_ne
      name := "lookup"
      isRun := by decide
      fits := by decide }
  gap := space
  ending := '='
  ends := by decide

/-- `[Column("a[0")] public readonly Dictionary<string, List<int>>?[,] lookup = f(x);` -/
theorem memberTypeText?_lookupField :
    memberTypeText? (lookupField.line " f(x);") = some "Dictionary<string, List<int>>?[,]" ∧
      memberType? (lookupField.line " f(x);") = some (TypeTree.parse "Dictionary<string, List<int>>?[,]") :=
  memberTypeText?_line lookupField " f(x);" (by decide) (by decide)

end ClassAtlas.Signature
