/-
The lines of a written file, seen from outside: each is one statement or brace, the lines of a class hold neither a
creation nor a static call, and the lines inside a class declare no class.
-/
import ClassAtlas.Proofs.Chunk
import ClassAtlas.Proofs.Usage
import ClassAtlas.Proofs.Written.Header
import ClassAtlas.Proofs.Written.Member
import ClassAtlas.Proofs.Written.Scope

namespace ClassAtlas.Written

open Outline (CallFree)
open Pattern (isArgumentChar)
open Source (IsStatement isTerminator isSimple)
open Text (StartsSolid)

/-! ## Statements -/

/-- what stands on a line before its end -/
def isCodeChar (c : Char) : Bool := (isArgumentChar c && c != '\n') || c == '(' || c == ')' || c == ':'

theorem IsTypeText.isCode {s : Text} (h : IsTypeText s) : ∀ c ∈ s, isCodeChar c = true := by
  intro c hc
  have hne : c ≠ '\n' := fun he => h.oneLine (he ▸ hc)
  simp [isCodeChar, h.chars c hc, hne]

theorem not_isTerminator_of_isCodeChar {c : Char} (h : isCodeChar c = true) : isTerminator c = false := by
  by_contra ht
  rcases Source.isTerminator_cases (Bool.not_eq_false _ ▸ ht) with rfl | rfl | rfl <;> exact absurd h (by decide)

theorem isSimple_of_isCodeChar {c : Char} (h : isCodeChar c = true) : isSimple c = true := by
  by_contra hs
  simp only [isSimple, Bool.not_eq_true', Bool.not_eq_false, Bool.or_eq_true, beq_iff_eq] at hs
  rcases hs with (rfl | rfl) | rfl <;> exact absurd h (by decide)

theorem isStatement_of_code {code : Text} (hcode : ∀ c ∈ code, isCodeChar c = true) {t : Char}
    (ht : isTerminator t = true) (hstart : StartsSolid (code ++ [t])) : IsStatement (code ++ [t]) where
  ends := ⟨code, t, rfl, ht, fun c hc => not_isTerminator_of_isCodeChar (hcode c hc)⟩
  starts := hstart
  simple := by
    intro c hc
    rcases List.mem_append.1 hc with hc | hc
    · exact isSimple_of_isCodeChar (hcode c hc)
    · obtain rfl := List.mem_singleton.1 hc
      rcases Source.isTerminator_cases ht with rfl | rfl | rfl <;> decide
  oneLine := by
    intro hc
    rcases List.mem_append.1 hc with hc | hc
    · exact absurd (hcode _ hc) (by decide)
    · obtain rfl := List.mem_singleton.1 hc
      exact absurd ht (by decide)

theorem startsSolid_of_head {s : Text} {c : Char} (h : s.head? = some c) (hc : Text.isBlank c = false) :
    StartsSolid s := by
  obtain ⟨rest, rfl⟩ := List.head?_eq_some_iff.1 h
  exact ⟨c, rest, rfl, hc⟩

/-! ## Inside a class -/

/-- a statement that declares nothing outside a class and uses nothing inside it -/
structure IsBodyLine (line : Text) : Prop where
  statement : IsStatement line
  clean : Clean line
  callFree : CallFree line
  start : line.head? = some 'p' ∨ line.head? = some '}'

theorem isBodyLine_fieldLine (t : TypeRef) (x : Identifier) : IsBodyLine (fieldLine t x) := by
  have hcode := isTypeText_field t x
  have hhead : (fieldLine t x).head? = some 'p' := rfl
  rw [fieldLine_eq] at hhead ⊢
  refine ⟨?_, ?_, ?_, .inl hhead⟩
  · exact isStatement_of_code hcode.isCode (by decide) (startsSolid_of_head hhead (by decide))
  · exact hcode.clean.append_not_word (by decide)
  · exact Outline.callFree_of_not_mem (hcode.not_mem_concat (by decide) (by decide))

theorem isBodyLine_braceLine : IsBodyLine braceLine := by
  have hstatement : IsStatement ([] ++ ['}']) :=
    isStatement_of_code (List.forall_mem_nil _) (by decide) ⟨'}', [], rfl, by decide⟩
  refine ⟨hstatement, ?_, ?_, .inr rfl⟩
  · exact clean_nil.append_not_word (by decide)
  · exact Outline.callFree_of_not_mem (by decide)

section Parameters

variable {a : Text} (d : Identifier) (h : IsTypeText (a ++ ' ' :: d.1)) (parameters : List Parameter)
include h

theorem isStatement_parameters (hhead : (a ++ ' ' :: d.1 ++ parametersEnd parameters).head? = some 'p') :
    IsStatement (a ++ ' ' :: d.1 ++ parametersEnd parameters) := by
  have hp := isTypeText_parametersText parameters
  have hline : a ++ ' ' :: d.1 ++ parametersEnd parameters =
      (a ++ ' ' :: d.1 ++ '(' :: (parametersText parameters ++ [')', ' '])) ++ ['{'] := by
    simp [parametersEnd]
  rw [hline] at hhead ⊢
  refine isStatement_of_code (fun c hc => ?_) (by decide) (startsSolid_of_head hhead (by decide))
  rcases List.mem_append.1 hc with hc | hc
  · exact h.isCode c hc
  · simp only [List.mem_cons, List.mem_append, List.not_mem_nil, or_false] at hc
    rcases hc with rfl | hc | rfl | rfl
    · decide
    · exact hp.isCode c hc
    · decide
    · decide

/-- the only parenthesis that opens stands after the name, which has a blank before it -/
theorem callFree_parameters : CallFree (a ++ ' ' :: d.1 ++ parametersEnd parameters) := by
  have hline : a ++ ' ' :: d.1 ++ parametersEnd parameters =
      (a ++ ' ' :: d.1 ++ ['(']) ++ (parametersText parameters ++ [')', ' ', '{']) := by
    simp [parametersEnd]
  have hname : CallFree (a ++ ' ' :: d.1 ++ ['(']) := by
    refine Outline.callFree_declaration ?_ (isRun_of_isIdentifier d.2.1).ne_nil (isNameChar_of_isIdentifier d.2.1)
    exact fun hm => h.not_mem (c := '(') (by decide) (List.mem_append_left _ hm)
  have hparen : '(' ∉ parametersText parameters := (isTypeText_parametersText parameters).not_mem (by decide)
  rw [hline]
  exact hname.append (Outline.callFree_of_not_mem (by simp [hparen]))

theorem isBodyLine_parameters (hhead : (a ++ ' ' :: d.1).head? = some 'p') :
    IsBodyLine (a ++ ' ' :: d.1 ++ parametersEnd parameters) := by
  have hp := (isTypeText_parametersText parameters).clean
  have hstart : (a ++ ' ' :: d.1 ++ parametersEnd parameters).head? = some 'p' := by
    rw [List.head?_append, hhead]
    rfl
  refine ⟨isStatement_parameters d h parameters hstart, ?_, callFree_parameters d h parameters, .inl hstart⟩
  exact (clean_append_cons (by decide)).2 ⟨h.clean, hp.append_not_word (by decide)⟩

end Parameters

theorem Member.isBodyLine (n : Identifier) (m : Member) : ∀ line ∈ m.lines n, IsBodyLine line := by
  cases m with
  | field type name => simpa [Member.lines] using isBodyLine_fieldLine type name
  | constructor parameters =>
    have hline := isBodyLine_parameters n (isTypeText_constructor n) parameters rfl
    rw [← constructorLine_eq] at hline
    simpa [Member.lines] using ⟨hline, isBodyLine_braceLine⟩
  | method result name parameters =>
    have hsplit : ∀ w a b : Text, w ++ ' ' :: (a ++ ' ' :: b) = (w ++ ' ' :: a) ++ ' ' :: b := by simp
    have htype := isTypeText_method result name
    have heq := methodLine_eq result name parameters
    rw [hsplit] at htype heq
    have hline := isBodyLine_parameters name htype parameters rfl
    rw [← heq] at hline
    simpa [Member.lines] using ⟨hline, isBodyLine_braceLine⟩

theorem Class.isBodyLine (c : Class) : ∀ line ∈ c.body, IsBodyLine line := by
  intro line hline
  rcases List.mem_append.1 hline with hline | hline
  · obtain ⟨m, -, hline⟩ := List.mem_flatMap.1 hline
    exact m.isBodyLine c.name line hline
  · exact List.mem_singleton.1 hline ▸ isBodyLine_braceLine

/-! ## Headers -/

theorem basesText_cases (bases : List Nominal) :
    basesText bases = [] ∨ ∃ list, basesText bases = [' ', ':', ' '] ++ list ∧ IsTypeText list := by
  cases bases with
  | nil => exact .inl rfl
  | cons t bases => exact .inr ⟨_, rfl, isTypeText_bases (t :: bases)⟩

theorem exists_space_basesText (bases : List Nominal) : ∃ rest, basesText bases ++ [' ', '{'] = ' ' :: rest := by
  cases bases with
  | nil => exact ⟨_, rfl⟩
  | cons t bases => exact ⟨_, rfl⟩

theorem clean_basesText (bases : List Nominal) : Clean (basesText bases) := by
  rcases basesText_cases bases with htext | ⟨list, htext, hlist⟩
  · rw [htext]
    exact clean_nil
  · rw [htext]
    exact hlist.clean.not_word_append (by decide)

theorem isCode_basesText (bases : List Nominal) : ∀ c ∈ basesText bases, isCodeChar c = true ∧ c ≠ '(' := by
  intro c hc
  rcases basesText_cases bases with htext | ⟨list, htext, hlist⟩
  · rw [htext] at hc
    exact absurd hc List.not_mem_nil
  · have hcolon : ∀ c ∈ [' ', ':', ' '], isCodeChar c = true ∧ c ≠ '(' := by decide
    rw [htext] at hc
    rcases List.mem_append.1 hc with hc | hc
    · exact hcolon c hc
    · exact ⟨hlist.isCode c hc, fun he => hlist.not_mem (c := '(') (by decide) (he ▸ hc)⟩

namespace Class

variable (c : Class)

theorem header_eq : c.header = (("class" : Text) ++ ' ' :: (c.name.1 ++ (basesText c.bases ++ [' ']))) ++ ['{'] := by
  have hsplit : ∀ w a b : Text, w ++ ' ' :: (a ++ (b ++ [' ', '{'])) = (w ++ ' ' :: (a ++ (b ++ [' ']))) ++ ['{'] := by
    simp
  exact hsplit _ _ _

theorem isCode_header : ∀ x ∈ ("class" : Text) ++ ' ' :: (c.name.1 ++ (basesText c.bases ++ [' '])),
    isCodeChar x = true ∧ x ≠ '(' := by
  intro x hx
  have hword : ∀ x ∈ ("class" : Text), isCodeChar x = true ∧ x ≠ '(' := by decide
  have hname := isTypeText_of_isIdentifier c.name.2.1
  rcases List.mem_append.1 hx with hx | hx
  · exact hword x hx
  · simp only [List.mem_cons, List.mem_append, List.not_mem_nil, or_false] at hx
    rcases hx with rfl | hx | hx | rfl
    · decide
    · exact ⟨hname.isCode x hx, fun he => hname.not_mem (c := '(') (by decide) (he ▸ hx)⟩
    · exact isCode_basesText c.bases x hx
    · decide

theorem isStatement_header : IsStatement c.header := by
  have hhead : c.header.head? = some 'c' := rfl
  rw [header_eq] at hhead ⊢
  exact isStatement_of_code (fun x hx => (c.isCode_header x hx).1) (by decide) (startsSolid_of_head hhead (by decide))

theorem callFree_header : CallFree c.header := by
  rw [header_eq]
  refine Outline.callFree_of_not_mem fun hm => ?_
  rcases List.mem_append.1 hm with hm | hm
  · exact (c.isCode_header _ hm).2 rfl
  · exact absurd hm (by decide)

theorem new_not_mem_header : ("new" : Text) ∉ Text.words c.header := by
  have hname := clean_of_isIdentifier c.name.2.1
  have hbases : Clean (basesText c.bases ++ [' ', '{']) := (clean_basesText c.bases).append_not_word (by decide)
  obtain ⟨rest, hrest⟩ := exists_space_basesText c.bases
  rw [hrest] at hbases
  have hclean : Clean (c.name.1 ++ ' ' :: rest) :=
    (clean_append_cons (by decide)).2 ⟨hname, ((clean_append_cons (a := []) (by decide)).1 hbases).2⟩
  rw [header, hrest]
  exact Text.not_mem_words_append (by decide) (by decide) (hclean.not_mem_words (by decide))

end Class

/-! ## Scopes -/

/-- the line of an import or of a namespace -/
theorem isStatement_dotted {w : Text} (hw : ∀ c ∈ w, isCodeChar c = true) {first : Char} (hfirst : w.head? = some first)
    (hsolid : Text.isBlank first = false) (name : Dotted 256) : IsStatement (w ++ ' ' :: (name.1 ++ [';'])) := by
  have hline : w ++ ' ' :: (name.1 ++ [';']) = (w ++ ' ' :: name.1) ++ [';'] := by simp
  have hhead : (w ++ ' ' :: name.1 ++ [';']).head? = some first := by simp [hfirst]
  rw [hline]
  refine isStatement_of_code (fun c hc => ?_) (by decide) (startsSolid_of_head hhead hsolid)
  simp only [List.mem_append, List.mem_cons] at hc
  rcases hc with hc | rfl | hc
  · exact hw c hc
  · decide
  · exact (isTypeText_of_isDotted name.2.1).isCode c hc

theorem declares_dotted {w : Text} (hw : ∀ c ∈ w, Text.isWord c = true) (hne : ("class" : Text) ≠ w)
    (name : Dotted 256) : Source.declares (w ++ ' ' :: (name.1 ++ [';'])) = false := by
  have hclean : Clean (name.1 ++ [';']) := (clean_of_isDotted name.2.1).append_not_word (by decide)
  exact Source.declares_eq_false (Text.not_mem_words_append hw hne (hclean.not_mem_words (by decide)))

theorem isStatement_importLine (name : Dotted 256) : IsStatement (importLine name) :=
  isStatement_dotted (by decide) rfl (by decide) name

theorem isStatement_scopeLine (name : Dotted 256) : IsStatement (scopeLine name) :=
  isStatement_dotted (by decide) rfl (by decide) name

/-- **every line of a file is a statement or a brace** -/
theorem File.isStatement (f : File) : ∀ line ∈ f.lines, IsStatement line := by
  intro line hline
  simp only [File.lines, Class.lines, List.mem_append, List.mem_map, List.mem_flatMap, List.mem_cons] at hline
  rcases hline with ⟨name, -, rfl⟩ | ⟨name, -, rfl⟩ | ⟨c, -, rfl | hline⟩
  · exact isStatement_importLine name
  · exact isStatement_scopeLine name
  · exact c.isStatement_header
  · exact (c.isBodyLine line hline).statement

end ClassAtlas.Written
