/-
The words of a text: its runs of word characters, the empty ones between two other characters included.

A word that stands free in a text is one of its words (`mem_words`), and words do not reach over a character that is
none of theirs (`words_append_cons`). So a text put together from parts has the words of its parts, and a pattern that
starts with a word finds nothing where that word is missing (`atWordStarts_eq_nil`).
-/
import ClassAtlas.Proofs.Name

namespace ClassAtlas.Text

def words (s : Text) : List Text := s.splitOnP (!isWord ·)

theorem words_append_cons {c : Char} (hc : isWord c = false) (a b : Text) :
    words (a ++ c :: b) = words a ++ words b :=
  List.splitOnP_append_cons a b (by simp [hc])

theorem words_eq_singleton {s : Text} (h : ∀ c ∈ s, isWord c = true) : words s = [s] :=
  List.splitOnP_eq_singleton fun c hc => by simp [h c hc]

/-- one more word in front -/
theorem not_mem_words_append {v w s : Text} (hw : ∀ c ∈ w, isWord c = true) (hne : v ≠ w) (hs : v ∉ words s) :
    v ∉ words (w ++ ' ' :: s) := by
  rw [words_append_cons (by decide), words_eq_singleton hw]
  simp [hne, hs]

theorem words_intercalate {c : Char} (hc : isWord c = false) {pieces : List Text} (hne : pieces ≠ []) :
    words (List.intercalate [c] pieces) = pieces.flatMap words := by
  induction pieces with
  | nil => contradiction
  | cons piece pieces ih =>
    cases pieces with
    | nil => simp
    | cons next pieces =>
      rw [List.intercalate_cons_cons, List.append_assoc, List.singleton_append, words_append_cons hc, ih (by simp)]
      exact List.flatMap_cons.symm

/-- a word that no word character touches -/
theorem mem_words {a w b : Text} (hw : ∀ c ∈ w, isWord c = true) (ha : ∀ c ∈ a.getLast?, isWord c = false)
    (hb : ∀ c ∈ b.head?, isWord c = false) : w ∈ words (a ++ w ++ b) := by
  have hafter : w ∈ words (w ++ b) := by
    cases b with
    | nil => simp [words_eq_singleton hw]
    | cons c b => simp [words_append_cons (hb c rfl), words_eq_singleton hw]
  rcases List.eq_nil_or_concat a with rfl | ⟨a, c, rfl⟩
  · exact hafter
  · have hc : isWord c = false := ha c (by simp)
    have htext : a ++ [c] ++ w ++ b = a ++ c :: (w ++ b) := by simp
    rw [List.concat_eq_append, htext, words_append_cons hc]
    exact List.mem_append_right _ hafter

/-! ## Characters -/

theorem isWord_of_isNameChar {c : Char} (h : Pattern.isNameChar c = true) : isWord c = true := by
  have hsmall : c.toNat < 0x80 := by
    unfold Pattern.isNameChar Char.isAlphanum Char.isAlpha Char.isUpper Char.isLower Char.isDigit at h
    simp only [Bool.or_eq_true, Bool.and_eq_true, decide_eq_true_eq, beq_iff_eq] at h
    rcases h with ((⟨-, h⟩ | ⟨-, h⟩) | ⟨-, h⟩) | rfl
    · exact Nat.lt_of_le_of_lt (UInt32.le_iff_toNat_le.1 h) (by decide)
    · exact Nat.lt_of_le_of_lt (UInt32.le_iff_toNat_le.1 h) (by decide)
    · exact Nat.lt_of_le_of_lt (UInt32.le_iff_toNat_le.1 h) (by decide)
    · decide
  rw [isWord, if_pos hsmall]
  exact h

/-- white space belongs to no word -/
theorem not_isWord_of_isBlank {c : Char} (h : isBlank c = true) : isWord c = false := by
  obtain ⟨r, hr, hlo, hhi⟩ : ∃ r ∈ blankRanges, r.1 ≤ c.toNat ∧ c.toNat ≤ r.2 := by
    simpa only [isBlank, inRanges, List.any_eq_true, Bool.and_eq_true, decide_eq_true_eq] using h
  have hall : ∀ r ∈ blankRanges, ∀ n ∈ List.range' r.1 (r.2 + 1 - r.1), isWord (Char.ofNat n) = false := by
    decide +kernel
  have hc := hall r hr c.toNat (List.mem_range'_1.2 ⟨hlo, by omega⟩)
  rwa [Char.ofNat_toNat] at hc

/-- a word that starts where a word may start and ends at a blank -/
theorem mem_words_of_startsWord {a w gap r : Text} (hw : ∀ c ∈ w, isWord c = true)
    (ha : Pattern.startsWord a.getLast? = true) (hgap : ∀ c ∈ gap, isBlank c = true) (hne : gap ≠ []) :
    w ∈ words (a ++ (w ++ gap ++ r)) := by
  obtain ⟨b, gap, rfl⟩ := List.exists_cons_of_ne_nil hne
  have htext : a ++ (w ++ b :: gap ++ r) = a ++ w ++ b :: (gap ++ r) := by simp
  rw [htext]
  refine mem_words hw (fun c hc => ?_) fun c hc => ?_
  · rw [Option.mem_def] at hc
    simpa [Pattern.startsWord, hc] using ha
  · obtain rfl : b = c := by simpa using hc
    exact not_isWord_of_isBlank (hgap b List.mem_cons_self)

theorem not_isBlank_of_isNameChar {c : Char} (h : Pattern.isNameChar c = true) : isBlank c = false := by
  cases hb : isBlank c with
  | false => rfl
  | true =>
    have hword := isWord_of_isNameChar h
    rw [not_isWord_of_isBlank hb] at hword
    contradiction

theorem not_isBlank_of_isDottedChar {c : Char} (h : Pattern.isDottedChar c = true) : isBlank c = false := by
  simp only [Pattern.isDottedChar, Bool.or_eq_true, beq_iff_eq] at h
  rcases h with h | rfl
  · exact not_isBlank_of_isNameChar h
  · decide

theorem not_isBlank_of_isRun {s : Text} (h : Pattern.IsRun Pattern.isDottedChar s) : ∀ c ∈ s, isBlank c = false :=
  fun c hc => not_isBlank_of_isDottedChar (h.dottedChars c hc)

end ClassAtlas.Text

namespace ClassAtlas.Pattern

/-- a pattern that starts with a word and blanks finds nothing in a text without that word -/
theorem atWordStarts_eq_nil {α : Type} {p : Pattern α} {w : Text} (hw : ∀ c ∈ w, Text.isWord c = true)
    (hp : ∀ s, ∀ m ∈ p s, ∃ gap rest, s = w ++ gap ++ rest ∧ gap ≠ [] ∧ ∀ c ∈ gap, Text.isBlank c = true) {text : Text}
    (h : w ∉ Text.words text) : p.atWordStarts text = [] := by
  refine List.eq_nil_iff_forall_not_mem.2 fun found hfound => h ?_
  obtain ⟨a, b, rfl, hb, hprevious, hstarts⟩ := mem_atWordStarts hfound
  obtain ⟨gap, rest, rfl, hne, hblank⟩ := hp b _ (mem_of_first? hb)
  exact Text.mem_words_of_startsWord hw (hprevious ▸ hstarts) hblank hne

/-- inside a word nothing is looked for -/
theorem scanWords_inside {α : Type} (p : Pattern α) {c : Char} (hc : Text.isWord c = true) {w : Text}
    (hw : ∀ d ∈ w, Text.isWord d = true) (rest : Text) :
    scanWords p 0 (some c) (w ++ ' ' :: rest) = scanWords p 0 (some ' ') rest := by
  have hskip : ∀ {d : Char}, Text.isWord d = true → startsWord (some d) = false := fun h => by simp [startsWord, h]
  induction w generalizing c with
  | nil => simp [scanWords, hskip hc]
  | cons d w ih =>
    obtain ⟨hd, hw⟩ := List.forall_mem_cons.1 hw
    rw [List.cons_append, scanWords, hskip hc]
    exact ih hd hw

/-- a word at which nothing is found is passed over, with the blank after it -/
theorem scanWords_word {α : Type} {p : Pattern α} {w rest : Text} (hw : ∀ d ∈ w, Text.isWord d = true)
    (hnone : p.first? (w ++ ' ' :: rest) = none) (previous : Option Char) :
    scanWords p 0 previous (w ++ ' ' :: rest) = scanWords p 0 (some ' ') rest := by
  cases w with
  | nil =>
    rw [List.nil_append] at hnone
    simp [scanWords, hnone]
  | cons d w =>
    obtain ⟨hd, hw⟩ := List.forall_mem_cons.1 hw
    rw [List.cons_append] at hnone
    rw [List.cons_append, scanWords, hnone, ite_self]
    exact scanWords_inside p hd hw rest

theorem IsRun.stops_isBlank {d : Text} (hd : IsRun isNameChar d) (tail : Text) : Stops Text.isBlank (d ++ tail) := by
  obtain ⟨e, more, rfl, he, -⟩ := hd
  exact stops_cons (Text.not_isBlank_of_isNameChar (isNameChar_of_isNameStart he)) _

theorem not_isDottedChar_of_isBlank {c : Char} (h : Text.isBlank c = true) : isDottedChar c = false := by
  cases hc : isDottedChar c with
  | false => rfl
  | true =>
    rw [Text.not_isBlank_of_isDottedChar hc] at h
    contradiction

theorem not_isNameChar_of_isBlank {c : Char} (h : Text.isBlank c = true) : isNameChar c = false := by
  have hdotted := not_isDottedChar_of_isBlank h
  simp only [isDottedChar, Bool.or_eq_false_iff] at hdotted
  exact hdotted.1

end ClassAtlas.Pattern
