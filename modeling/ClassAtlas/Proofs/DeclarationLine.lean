/-
Lines that declare a class.

The word `class` declares one where a word may start, if blanks follow it and then a name at whose end a word ends
(`DeclarationOn`). A line may hold the word several times. Where no name follows, or one that is too long or goes on
with other word characters, the word is passed over and not read in part; the first place that declares a class gives
the name (`classNameOf?_leftmost`).
-/
import Mathlib.Order.WellFounded
import ClassAtlas.Proofs.Chunk

namespace ClassAtlas.Source

open Pattern (FoundAfter IsRun Reads Stops isNameChar startsWord)

/-! ## The pattern -/

theorem reads_classPattern {gap n rest : Text} (hne : gap ≠ []) (hgap : ∀ c ∈ gap, Text.isBlank c = true)
    (hn : IsRun isNameChar n) (hlen : n.length ≤ 128) (hrest : Stops Text.isWord rest) :
    Reads classPattern (("class" : Text) ++ (gap ++ (n ++ rest))) n rest := by
  have hstop : Stops isNameChar rest := by
    intro c hc
    by_contra h
    have hword := Text.isWord_of_isNameChar (Bool.not_eq_false _ ▸ h)
    rw [hrest c hc] at hword
    contradiction
  have hclass : (Pattern.literal "class").first? (("class" : Text) ++ (gap ++ (n ++ rest))) =
      some ⟨(), "class", gap ++ (n ++ rest)⟩ := Pattern.first?_literal _ _
  have hblank : Pattern.someBlanks.first? (gap ++ (n ++ rest)) = some ⟨(), gap, n ++ rest⟩ :=
    congrArg List.head? (Pattern.someBlanks_append hgap hne (hn.stops_isBlank rest))
  have hname : Pattern.identifier.first? (n ++ rest) = some ⟨(), n, rest⟩ :=
    congrArg List.head? (Pattern.identifier_append hn hlen hstop)
  have hend : Pattern.notBeforeWord.first? rest = some ⟨(), [], rest⟩ := by
    simp [Pattern.first?, Pattern.notBeforeWord, Pattern.stops_iff.1 hrest]
  exact ⟨_, Pattern.first?_bind hclass (Pattern.first?_bind hblank (Pattern.first?_bind (Pattern.first?_capture hname)
    (Pattern.first?_bind hend (Pattern.first?_pure _ _))))⟩

/-- a declaration with one space -/
theorem first?_classPattern {n : Text} (hn : IsRun isNameChar n) (hlen : n.length ≤ 128) {rest : Text}
    (hrest : Stops Text.isWord rest) :
    ∃ taken, classPattern.first? (("class" : Text) ++ ' ' :: (n ++ rest)) = some ⟨n, taken, rest⟩ := by
  have hgap : ∀ c ∈ [' '], Text.isBlank c = true := by decide
  obtain ⟨taken, htaken⟩ := reads_classPattern (List.cons_ne_nil _ _) hgap hn hlen hrest
  rw [List.singleton_append] at htaken
  exact ⟨taken, htaken⟩

/-- no declaration starts with another word -/
theorem first?_classPattern_eq_none {w : Text} (hw : ∀ c ∈ w, Text.isWord c = true) (hne : w ≠ "class") (rest : Text) :
    classPattern.first? (w ++ ' ' :: rest) = none := by
  cases hm : classPattern.first? (w ++ ' ' :: rest) with
  | none => rfl
  | some m =>
    obtain ⟨gap, hs, hgap, hblank, -⟩ := mem_classPattern (Pattern.mem_of_first? hm)
    obtain ⟨b, gap, rfl⟩ := List.exists_cons_of_ne_nil hgap
    have hb := Text.not_isWord_of_isBlank (hblank b List.mem_cons_self)
    have hleft : (w ++ ' ' :: rest).takeWhile Text.isWord = w := Text.takeWhile_append_cons hw (by decide)
    have hright : (("class" : Text) ++ b :: (gap ++ m.value ++ m.rest)).takeWhile Text.isWord = ("class" : Text) :=
      Text.takeWhile_append_cons (by decide) hb
    have htext : w ++ ' ' :: rest = ("class" : Text) ++ b :: (gap ++ m.value ++ m.rest) := by simpa using hs
    rw [htext, hright] at hleft
    exact absurd hleft.symm hne

/-! ## Places on a line -/

/-- a place of a line where a class is declared -/
structure DeclarationOn (line : Text) where
  before : Text
  gap : Text
  name : Text
  rest : Text
  text : line = before ++ (("class" : Text) ++ (gap ++ (name ++ rest)))
  /-- a word may start behind `before` -/
  starts : ∀ c ∈ before.getLast?, Text.isWord c = false
  gap_ne : gap ≠ []
  blank : ∀ c ∈ gap, Text.isBlank c = true
  isRun : IsRun isNameChar name
  fits : name.length ≤ 128
  /-- no word character follows the name -/
  ends : Stops Text.isWord rest

theorem startsWord_iff {previous : Option Char} :
    startsWord previous = true ↔ ∀ c ∈ previous, Text.isWord c = false := by
  cases previous <;> simp [startsWord]

/-- the pattern has a match behind `before` exactly if a class is declared there, and its value is the name -/
theorem foundAfter_classPattern_iff {line before name : Text} :
    (∃ m, FoundAfter classPattern none line before m ∧ m.value = name) ↔
      ∃ d : DeclarationOn line, d.before = before ∧ d.name = name := by
  constructor
  · rintro ⟨m, ⟨text, rfl, hstarts, hm⟩, rfl⟩
    obtain ⟨gap, rfl, hne, hblank, hrun, hfits, hends⟩ := mem_classPattern (Pattern.mem_of_first? hm)
    rw [Option.or_none] at hstarts
    exact ⟨⟨before, gap, m.value, m.rest, by simp, startsWord_iff.1 hstarts, hne, hblank, hrun, hfits, hends⟩, rfl, rfl⟩
  · rintro ⟨d, rfl, rfl⟩
    obtain ⟨taken, hm⟩ := reads_classPattern d.gap_ne d.blank d.isRun d.fits d.ends
    refine ⟨_, ⟨_, d.text, ?_, hm⟩, rfl⟩
    rw [Option.or_none]
    exact startsWord_iff.2 d.starts

theorem first?_classPattern_nil : classPattern.first? [] = none := rfl

theorem classNameOf?_eq_some_iff {line name : Text} :
    classNameOf? line = some name ↔
      ∃ d : DeclarationOn line, d.name = name ∧ ∀ d' : DeclarationOn line, d.before.length ≤ d'.before.length := by
  have hscan : ∀ m, classMatch? line = some m ↔ _ :=
    fun m => Pattern.head?_scanWords_eq_some_iff first?_classPattern_nil
  simp only [classNameOf?, Option.map_eq_some_iff, hscan]
  constructor
  · rintro ⟨m, ⟨before, hfound, hleast⟩, hvalue⟩
    obtain ⟨d, rfl, hname⟩ := foundAfter_classPattern_iff.1 ⟨m, hfound, hvalue⟩
    refine ⟨d, hname, fun d' => ?_⟩
    obtain ⟨m', hfound', -⟩ := foundAfter_classPattern_iff.2 ⟨d', rfl, rfl⟩
    exact hleast d'.before m' hfound'
  · rintro ⟨d, hname, hleast⟩
    obtain ⟨m, hfound, hvalue⟩ := foundAfter_classPattern_iff.2 ⟨d, rfl, hname⟩
    refine ⟨m, ⟨d.before, hfound, fun before' m' hfound' => ?_⟩, hvalue⟩
    obtain ⟨d', rfl, -⟩ := foundAfter_classPattern_iff.1 ⟨m', hfound', rfl⟩
    exact hleast d'

/-- the name of a declared class is an identifier of at most 128 characters -/
theorem isRun_of_classMatch? {line : Text} {found : Match Text} (h : classMatch? line = some found) :
    IsRun isNameChar found.value ∧ found.value.length ≤ 128 := by
  have hname : classNameOf? line = some found.value := congrArg (Option.map Match.value) h
  obtain ⟨d, hd, -⟩ := classNameOf?_eq_some_iff.1 hname
  rw [← hd]
  exact ⟨d.isRun, d.fits⟩

/-- **The first declaration on a line gives the name.** A line names a class exactly if some place of it declares one,
and then the name is the one at the first such place. -/
theorem classNameOf?_leftmost (line : Text) :
    (∀ name, classNameOf? line = some name ↔
      ∃ d : DeclarationOn line, d.name = name ∧ ∀ d' : DeclarationOn line, d.before.length ≤ d'.before.length) ∧
    (classNameOf? line = none ↔ IsEmpty (DeclarationOn line)) := by
  refine ⟨fun name => classNameOf?_eq_some_iff, fun hnone => ⟨fun d => ?_⟩, fun hempty => ?_⟩
  · -- among the places of a line one comes first
    have : Nonempty (DeclarationOn line) := ⟨d⟩
    let place (d : DeclarationOn line) : Nat := d.before.length
    have hsome := classNameOf?_eq_some_iff.2 ⟨Function.argmin place, rfl, fun d' => Function.argmin_le place d'⟩
    rw [hnone] at hsome
    contradiction
  · cases hname : classNameOf? line with
    | none => rfl
    | some name =>
      obtain ⟨d, -⟩ := classNameOf?_eq_some_iff.1 hname
      exact hempty.elim d

end ClassAtlas.Source
