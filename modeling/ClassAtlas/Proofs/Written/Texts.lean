/-
What the parts of a written file look like: the characters they hold, how they start and end, and the words in them.
-/
import ClassAtlas.Proofs.Name
import ClassAtlas.Proofs.TypeTree.RoundTrip
import ClassAtlas.Proofs.Word
import ClassAtlas.Proofs.Written.Syntax

namespace ClassAtlas.Written

open Pattern (IsRun isNameChar isDottedChar isArgumentChar)
open Text (isWord words)

/-! ## Words -/

/-- every word in the text may be a type -/
def Clean (s : Text) : Prop := ∀ w ∈ words s, Vocabulary.isNonTypeWord w = false

theorem clean_append_cons {c : Char} (hc : isWord c = false) {a b : Text} :
    Clean (a ++ c :: b) ↔ Clean a ∧ Clean b := by
  simp only [Clean, Text.words_append_cons hc, List.mem_append, or_imp, forall_and]

theorem clean_nil : Clean [] := by
  intro w hw
  obtain rfl : w = [] := by simpa [words] using hw
  decide

theorem Clean.append_not_word {a b : Text} (ha : Clean a) (hb : ∀ c ∈ b, isWord c = false) : Clean (a ++ b) := by
  induction b generalizing a with
  | nil => rwa [List.append_nil]
  | cons c b ih =>
    have hrest : Clean ([] ++ b) := ih clean_nil fun d hd => hb d (List.mem_cons_of_mem c hd)
    exact (clean_append_cons (hb c List.mem_cons_self)).2 ⟨ha, hrest⟩

theorem Clean.not_word_append {a b : Text} (hb : Clean b) (ha : ∀ c ∈ a, isWord c = false) : Clean (a ++ b) := by
  induction a with
  | nil => exact hb
  | cons c a ih =>
    have hrest : Clean (a ++ b) := ih fun d hd => ha d (List.mem_cons_of_mem c hd)
    exact (clean_append_cons (a := []) (ha c List.mem_cons_self)).2 ⟨clean_nil, hrest⟩

theorem Clean.not_mem_words {s w : Text} (h : Clean s) (hw : Vocabulary.isNonTypeWord w = true) : w ∉ words s := by
  intro hm
  rw [h w hm] at hw
  contradiction

theorem isWord_of_isNonTypeWord {w : Text} (h : Vocabulary.isNonTypeWord w = true) : ∀ c ∈ w, isWord c = true := by
  have hall : ∀ w ∈ Vocabulary.nonTypeWords, ∀ c ∈ w, isWord c = true := by decide +kernel
  exact hall w (by simpa [Vocabulary.isNonTypeWord] using h)

/-- such a text is not itself a word that cannot be a type -/
theorem Clean.isNonTypeWord_eq_false {s : Text} (h : Clean s) : Vocabulary.isNonTypeWord s = false := by
  by_contra hs
  have hs : Vocabulary.isNonTypeWord s = true := by simpa using hs
  have hself : s ∈ words s := by simp [Text.words_eq_singleton (isWord_of_isNonTypeWord hs)]
  exact h.not_mem_words hs hself

/-! ## Names -/

theorem isNameChar_of_isIdentifier {s : Text} (h : isIdentifier s = true) : ∀ c ∈ s, isNameChar c = true := by
  simp only [isIdentifier, Bool.and_eq_true, List.all_eq_true] at h
  exact h.1.2

theorem isRun_of_isIdentifier {s : Text} (h : isIdentifier s = true) : IsRun isNameChar s := by
  have hchars := isNameChar_of_isIdentifier h
  simp only [isIdentifier, Bool.and_eq_true] at h
  cases s with
  | nil => exact absurd h.1.1 (by decide)
  | cons c s => exact ⟨c, s, rfl, h.1.1, fun d hd => hchars d (List.mem_cons_of_mem c hd)⟩

theorem words_of_isIdentifier {s : Text} (h : isIdentifier s = true) : words s = [s] :=
  Text.words_eq_singleton fun c hc => Text.isWord_of_isNameChar (isNameChar_of_isIdentifier h c hc)

theorem clean_of_isIdentifier {s : Text} (h : isIdentifier s = true) : Clean s := by
  intro w hw
  obtain rfl : w = s := by simpa [words_of_isIdentifier h] using hw
  simp only [isIdentifier, Bool.and_eq_true, Bool.not_eq_true'] at h
  exact h.2

/-- a dotted name by induction on its segments -/
theorem isDotted_induction {motive : Text → Prop} (one : ∀ s, isIdentifier s = true → motive s)
    (more : ∀ s rest, isIdentifier s = true → motive rest → motive (s ++ '.' :: rest)) {s : Text}
    (h : isDotted s = true) : motive s := by
  have hne := List.splitOn_ne_nil '.' s
  have hall : ∀ w ∈ s.splitOn '.', isIdentifier w = true := List.all_eq_true.1 h
  have hs : List.intercalate ['.'] (s.splitOn '.') = s := List.intercalate_splitOn '.'
  rw [← hs]
  generalize s.splitOn '.' = segments at hne hall ⊢
  induction segments with
  | nil => contradiction
  | cons w segments ih =>
    have hw := hall w List.mem_cons_self
    cases segments with
    | nil =>
      rw [List.intercalate_singleton]
      exact one w hw
    | cons v segments =>
      rw [List.intercalate_cons_cons, List.append_assoc]
      exact more w _ hw (ih (by simp) fun u hu => hall u (List.mem_cons_of_mem w hu))

theorem isRun_of_isDotted {s : Text} (h : isDotted s = true) : IsRun isDottedChar s := by
  have hname : ∀ c, isNameChar c = true → isDottedChar c = true := fun c hc => by simp [isDottedChar, hc]
  refine isDotted_induction (fun s hs => ?_) (fun s rest hs ih => ?_) h
  · obtain ⟨c, rest, rfl, hc, hrest⟩ := isRun_of_isIdentifier hs
    exact ⟨c, rest, rfl, hc, fun d hd => hname d (hrest d hd)⟩
  · obtain ⟨c, tail, rfl, hc, htail⟩ := isRun_of_isIdentifier hs
    obtain ⟨d, others, rfl, hd, hothers⟩ := ih
    refine ⟨c, tail ++ '.' :: d :: others, rfl, hc, fun x hx => ?_⟩
    simp only [List.mem_append, List.mem_cons] at hx
    rcases hx with hx | rfl | rfl | hx
    · exact hname x (htail x hx)
    · decide
    · exact hname x (Pattern.isNameChar_of_isNameStart hd)
    · exact hothers x hx

theorem isDottedChar_of_isDotted {s : Text} (h : isDotted s = true) : ∀ c ∈ s, isDottedChar c = true := by
  obtain ⟨c, rest, rfl, hc, hrest⟩ := isRun_of_isDotted h
  refine List.forall_mem_cons.2 ⟨?_, hrest⟩
  simp [isDottedChar, Pattern.isNameChar_of_isNameStart hc]

theorem clean_of_isDotted {s : Text} (h : isDotted s = true) : Clean s := by
  refine isDotted_induction (fun s hs => clean_of_isIdentifier hs) (fun s rest hs ih => ?_) h
  exact (clean_append_cons (by decide)).2 ⟨clean_of_isIdentifier hs, ih⟩

/-! ## Types -/

/-- of the characters that types are written with, on one line, and clean -/
structure IsTypeText (s : Text) : Prop where
  chars : ∀ c ∈ s, isArgumentChar c = true
  oneLine : '\n' ∉ s
  clean : Clean s

theorem isTypeText_of_isDotted {s : Text} (h : isDotted s = true) : IsTypeText s where
  chars := fun c hc => by simp [isArgumentChar, isDottedChar_of_isDotted h c hc]
  oneLine := fun hc => absurd (isDottedChar_of_isDotted h _ hc) (by decide)
  clean := clean_of_isDotted h

theorem isTypeText_of_isIdentifier {s : Text} (h : isIdentifier s = true) : IsTypeText s where
  chars := fun c hc => by simp [isArgumentChar, isDottedChar, isNameChar_of_isIdentifier h c hc]
  oneLine := fun hc => absurd (isNameChar_of_isIdentifier h _ hc) (by decide)
  clean := clean_of_isIdentifier h

namespace IsTypeText

theorem append_cons {a b : Text} {c : Char} (ha : IsTypeText a) (hb : IsTypeText b) (hc : isArgumentChar c = true)
    (hn : c ≠ '\n') (hw : isWord c = false) : IsTypeText (a ++ c :: b) where
  chars := by
    simp only [List.mem_append, List.mem_cons]
    rintro d (hd | rfl | hd)
    · exact ha.chars d hd
    · exact hc
    · exact hb.chars d hd
  oneLine := by
    simp only [List.mem_append, List.mem_cons]
    rintro (hd | rfl | hd)
    · exact ha.oneLine hd
    · exact hn rfl
    · exact hb.oneLine hd
  clean := (clean_append_cons hw).2 ⟨ha.clean, hb.clean⟩

theorem nil : IsTypeText [] := ⟨by simp, by simp, clean_nil⟩

theorem append_space {a b : Text} (ha : IsTypeText a) (hb : IsTypeText b) : IsTypeText (a ++ ' ' :: b) :=
  ha.append_cons hb (by decide) (by decide) (by decide)

/-- pieces with a comma and a blank between them -/
theorem intercalate {pieces : List Text} (h : ∀ q ∈ pieces, IsTypeText q) :
    IsTypeText (List.intercalate [',', ' '] pieces) := by
  induction pieces with
  | nil => exact nil
  | cons piece pieces ih =>
    have hpiece := h piece List.mem_cons_self
    cases pieces with
    | nil => rwa [List.intercalate_singleton]
    | cons next pieces =>
      have hrest := append_space nil (ih fun q hq => h q (List.mem_cons_of_mem piece hq))
      rw [List.intercalate_cons_cons, List.append_assoc]
      exact hpiece.append_cons hrest (by decide) (by decide) (by decide)

theorem append_not_word {a b : Text} (ha : IsTypeText a)
    (hb : ∀ c ∈ b, isArgumentChar c = true ∧ c ≠ '\n' ∧ isWord c = false) : IsTypeText (a ++ b) := by
  induction b generalizing a with
  | nil => rwa [List.append_nil]
  | cons c b ih =>
    obtain ⟨hc, hn, hw⟩ := hb c List.mem_cons_self
    have hrest : IsTypeText ([] ++ b) := ih nil fun d hd => hb d (List.mem_cons_of_mem c hd)
    exact ha.append_cons hrest hc hn hw

theorem not_word_append {a b : Text} (hb : IsTypeText b)
    (ha : ∀ c ∈ a, isArgumentChar c = true ∧ c ≠ '\n' ∧ isWord c = false) : IsTypeText (a ++ b) := by
  induction a with
  | nil => exact hb
  | cons c a ih =>
    obtain ⟨hc, hn, hw⟩ := ha c List.mem_cons_self
    exact append_cons (a := []) nil (ih fun d hd => ha d (List.mem_cons_of_mem c hd)) hc hn hw

end IsTypeText

theorem isTypeText_marks {a : Text} (ha : IsTypeText a) (marks : List TypeTree.SimpleMark) :
    IsTypeText (a ++ TypeTree.simpleText marks) := by
  refine ha.append_not_word fun c hc => ?_
  rcases TypeTree.mem_marksText hc with rfl | rfl | rfl | rfl <;> decide

theorem blank_of_oneLine {b : Text.Blanks} (hb : (!b.1.contains '\n') = true) :
    ∀ c ∈ b.1, isArgumentChar c = true ∧ c ≠ '\n' ∧ isWord c = false := by
  intro c hc
  have hblank := b.2 c hc
  refine ⟨by simp [isArgumentChar, hblank], ?_, Text.not_isWord_of_isBlank hblank⟩
  rintro rfl
  simp [hc] at hb

end ClassAtlas.Written

namespace ClassAtlas.TypeTree

open Written (IsTypeText)

mutual

theorem Shape.isTypeText (shape : Shape) (h : shape.isOrdinary = true) : IsTypeText shape.render := by
  cases shape with
  | plain name => exact Written.isTypeText_of_isDotted h
  | generic name arguments =>
    simp only [Shape.isOrdinary, Bool.and_eq_true] at h
    have hname := Written.isTypeText_of_isDotted h.1
    have hclosed := (arguments.isTypeText h.2).append_cons IsTypeText.nil (c := '>') (by decide) (by decide) (by decide)
    have hall := hname.append_cons hclosed (c := '<') (by decide) (by decide) (by decide)
    simpa [Shape.render] using hall
  | tuple elements => simp [Shape.isOrdinary] at h

theorem Argument.isTypeText (argument : Argument) (h : argument.isOrdinary = true) : IsTypeText argument.render := by
  cases argument with
  | mk before shape marks label after =>
    simp only [Argument.isOrdinary, Bool.and_eq_true, Option.isNone_iff_eq_none] at h
    obtain ⟨⟨⟨⟨hbefore, hshape⟩, -⟩, rfl⟩, hafter⟩ := h
    have hcore := Written.isTypeText_marks (shape.isTypeText hshape) marks
    have hpadded := hcore.not_word_append (Written.blank_of_oneLine hbefore)
    have hall := hpadded.append_not_word (Written.blank_of_oneLine hafter)
    simpa [Argument.render, labelText] using hall

theorem Arguments.isTypeText (arguments : Arguments) (h : arguments.isOrdinary = true) :
    IsTypeText arguments.render := by
  cases arguments with
  | one argument => exact argument.isTypeText h
  | more argument others =>
    simp only [Arguments.isOrdinary, Bool.and_eq_true] at h
    exact (argument.isTypeText h.1).append_cons (others.isTypeText h.2) (by decide) (by decide) (by decide)

end

end ClassAtlas.TypeTree
