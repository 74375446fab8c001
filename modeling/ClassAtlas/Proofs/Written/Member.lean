/-
Written members are read back, each from its own line.

A type may be a word that is also a modifier, and then a pattern first takes it for one. What is left then is the name
and the character after it, where no type and name can be found (`typeAndName_eq_nil`), so that choice comes to nothing
and the word is the type after all (`bind_upTo_words`).
-/
import ClassAtlas.Proofs.Member
import ClassAtlas.Proofs.Written.Parameter

namespace ClassAtlas.Written

open Pattern (IsRun Stops stops_cons isNameStart isNameChar isArgumentChar)
open Outline (visibilityWords fieldModifiers methodModifiers)

/-! ## Words before a type -/

/-- words of name characters only -/
def AreNames (list : List Text) : Prop := ∀ w ∈ list, ∀ c ∈ w, isNameChar c = true

instance : DecidablePred AreNames := fun list => inferInstanceAs (Decidable (∀ w ∈ list, ∀ c ∈ w, isNameChar c = true))

theorem AreNames.solid {list : List Text} (h : AreNames list) : ∀ w ∈ list, ∀ c ∈ w, Text.isBlank c = false :=
  fun w hw c hc => Text.not_isBlank_of_isNameChar (h w hw c hc)

section Declaration

variable {d rest : Text} {c : Char} (hd : IsRun isNameChar d) (hc : isArgumentChar c = false)
include hd

/-- a word of the list can only be the whole type, so that the name is left -/
theorem rest_of_mem_wordAndBlanks {list : List Text} (hl : AreNames list) (t : TypeRef) {taken left : Text} {u : Unit}
    (hm : ⟨u, taken, left⟩ ∈ Pattern.wordAndBlanks list (t.render ++ ' ' :: (d ++ c :: rest))) :
    left = d ++ c :: rest := by
  obtain ⟨hmem, b, gap, htext, hblank⟩ := Pattern.mem_wordAndBlanks hl.solid hm
  have hfirst : Outline.firstWord (t.render ++ ' ' :: (d ++ c :: rest)) = t.render := by
    refine (firstWord_typeRef t _).resolve_right fun hangle => ?_
    exact absurd (hl _ hmem _ hangle) (by decide)
  have hsame : t.render ++ ' ' :: (d ++ c :: rest) = t.render ++ b :: (gap ++ left) := by
    rw [Outline.firstWord] at hfirst
    rw [hfirst] at htext
    simpa using htext
  have htail := (List.cons.inj (List.append_cancel_left hsame)).2
  -- the name starts right after one blank
  cases gap with
  | nil => exact htail.symm
  | cons g gap =>
    have hsolid := hd.stops_isBlank (c :: rest) g (by rw [htail]; rfl)
    rw [hblank g (by simp)] at hsolid
    contradiction

include hc

theorem wordAndBlanks_name {list : List Text} (hl : AreNames list) :
    Pattern.wordAndBlanks list (d ++ c :: rest) = [] := by
  refine Pattern.wordAndBlanks_eq_nil hl.solid fun hmem => ?_
  obtain ⟨-, hchar, hblank, -⟩ := Pattern.of_not_isArgumentChar hc
  have hname : ∀ x ∈ d, (!Text.isBlank x) = true := by
    obtain ⟨e, more, rfl, he, hmore⟩ := hd
    refine List.forall_mem_cons.2 ⟨?_, fun x hx => by simp [Text.not_isBlank_of_isNameChar (hmore x hx)]⟩
    simp [Text.not_isBlank_of_isNameChar (Pattern.isNameChar_of_isNameStart he)]
  rw [List.takeWhile_append_of_pos hname, List.takeWhile_cons_of_pos (by simp [hblank])] at hmem
  rw [hl _ hmem c (by simp)] at hchar
  contradiction

/-- before a name that ends at once there is no type -/
theorem typeAndName_eq_nil (hlen : d.length ≤ 128) : Outline.typeAndName (d ++ c :: rest) = [] := by
  have hblank := (Pattern.of_not_isArgumentChar hc).2.2.1
  have hcapture : Pattern.capture Pattern.typeExpression (d ++ c :: rest) = [⟨d, d, c :: rest⟩] := by
    rw [Pattern.capture, Pattern.typeExpression_name hd hlen hc]
    rfl
  rw [Outline.typeAndName, Pattern.bind_singleton hcapture,
    Pattern.bind_eq_nil (Pattern.someBlanks_eq_nil (stops_cons hblank rest))]
  rfl

omit hc in
theorem bind_optional_word {list : List Text} (hl : AreNames list) (t : TypeRef) {β : Type} {f : Unit → Pattern β}
    (hf : f () (d ++ c :: rest) = []) :
    (Pattern.optional (Pattern.wordAndBlanks list) >>= f) (t.render ++ ' ' :: (d ++ c :: rest)) =
      f () (t.render ++ ' ' :: (d ++ c :: rest)) :=
  Pattern.bind_of_dead rfl (fun _ hm => rest_of_mem_wordAndBlanks hd hl t hm) hf

theorem bind_upTo_words {list : List Text} (hl : AreNames list) (t : TypeRef) (n : Nat) {β : Type}
    {f : Unit → Pattern β} (hf : f () (d ++ c :: rest) = []) :
    (Pattern.upTo n (Pattern.wordAndBlanks list) >>= f) (t.render ++ ' ' :: (d ++ c :: rest)) =
      f () (t.render ++ ' ' :: (d ++ c :: rest)) := by
  cases n with
  | zero => exact Pattern.bind_of_empty rfl f
  | succ n =>
    refine Pattern.bind_of_dead rfl (fun m hm => ?_) hf
    obtain ⟨_, _, _, _, hword, hmore, -⟩ := Pattern.mem_bind.1 hm
    obtain rfl := rest_of_mem_wordAndBlanks hd hl t hword
    rw [Pattern.upTo_of_nil (wordAndBlanks_name hd hc hl) n] at hmore
    simp only [List.mem_singleton, Match.mk.injEq] at hmore
    exact hmore.2.2

end Declaration

theorem areNames_visibilityWords : AreNames visibilityWords := by decide

theorem areNames_fieldModifiers : AreNames fieldModifiers := by decide

theorem areNames_methodModifiers : AreNames methodModifiers := by decide

theorem nodup_visibilityWords : visibilityWords.Nodup := by decide

theorem nodup_fieldModifiers : fieldModifiers.Nodup := by decide +kernel

/-- a line that starts with a word has no attributes -/
theorem attributes_word {w : Text} (hw : IsRun isNameChar w) (s : Text) :
    Outline.attributes (w ++ s) = [⟨(), [], w ++ s⟩] := by
  obtain ⟨c, rest, rfl, hc, -⟩ := hw
  have hne : c ≠ '[' := fun he => absurd (he ▸ hc) (by decide)
  exact Pattern.upTo_of_nil (Pattern.bind_eq_nil (Pattern.char_eq_nil hne _) _) 3

theorem isRun_of_mem {list : List Text} (hl : AreNames list) (hstart : ∀ w ∈ list, w.head?.any isNameStart = true) :
    ∀ w ∈ list, IsRun isNameChar w := by
  intro w hw
  cases w with
  | nil => exact absurd (hstart [] hw) (by decide)
  | cons c rest => exact ⟨c, rest, rfl, hstart _ hw, fun d hd => hl _ hw d (List.mem_cons_of_mem c hd)⟩

theorem isRun_fieldModifiers : ∀ w ∈ fieldModifiers, IsRun isNameChar w :=
  isRun_of_mem areNames_fieldModifiers (by decide)

theorem isRun_visibilityWords : ∀ w ∈ visibilityWords, IsRun isNameChar w :=
  isRun_of_mem areNames_visibilityWords (by decide)

theorem private_mem_fieldModifiers : ("private" : Text) ∈ fieldModifiers := by decide

theorem public_mem_visibilityWords : ("public" : Text) ∈ visibilityWords := by decide

theorem visibilityWord {w : Text} (hw : w ∈ visibilityWords) {s : Text} (hs : Stops Text.isBlank s) :
    Pattern.wordAndBlanks visibilityWords (w ++ ' ' :: s) = [⟨(), w ++ [' '], s⟩] :=
  Pattern.wordAndBlanks_space areNames_visibilityWords.solid nodup_visibilityWords hw hs

theorem stops_typeRef (t : TypeRef) (tail : Text) : Stops Text.isBlank (t.render ++ tail) := by
  obtain ⟨c, rest, htext, hc⟩ := t.startsSolid
  rw [htext]
  exact stops_cons hc _

/-! ## Fields -/

theorem fieldEnd_eq_nil (x : Identifier) (rest : Text) : Outline.fieldEnd (x.1 ++ ';' :: rest) = [] :=
  Pattern.bind_eq_nil (typeAndName_eq_nil (isRun_of_isIdentifier x.2.1) (by decide) x.2.2) _

theorem first?_fieldEnd (t : TypeRef) (x : Identifier) (rest : Text) :
    ∃ taken, Outline.fieldEnd.first? (t.render ++ ' ' :: (x.1 ++ ';' :: rest)) =
      some ⟨(t.render, x.1), taken, rest⟩ := by
  have hdeclared : Outline.typeAndName.first? (t.render ++ ' ' :: (x.1 ++ ';' :: rest)) =
      some ⟨(t.render, x.1), t.render ++ ' ' :: x.1, ';' :: rest⟩ :=
    first?_typeAndName (isRun_of_isIdentifier x.2.1) (by decide) t x.2.2
  have hblanks : Pattern.blanks.first? (';' :: rest) = some ⟨(), [], ';' :: rest⟩ := by
    rw [Pattern.first?, Pattern.blanks_eq (stops_cons (by decide) rest)]
    rfl
  have hend : (Pattern.satisfy fun c => c == '=' || c == ';').first? (';' :: rest) = some ⟨(), [';'], rest⟩ := by
    rw [Pattern.first?, Pattern.satisfy_cons (by decide) rest]
    rfl
  exact ⟨_, Pattern.first?_bind hdeclared (Pattern.first?_bind hblanks
    (Pattern.first?_bind hend (Pattern.first?_pure _ _)))⟩

theorem first?_fieldPattern {w : Text} (hw : w ∈ fieldModifiers) (t : TypeRef) (x : Identifier) (rest : Text) :
    ∃ taken, Outline.fieldPattern.first? (w ++ ' ' :: (t.render ++ ' ' :: (x.1 ++ ';' :: rest))) =
      some ⟨(t.render, x.1), taken, rest⟩ := by
  have hx := isRun_of_isIdentifier x.2.1
  have hword : Pattern.wordAndBlanks fieldModifiers (w ++ ' ' :: (t.render ++ ' ' :: (x.1 ++ ';' :: rest))) =
      [⟨(), w ++ [' '], t.render ++ ' ' :: (x.1 ++ ';' :: rest)⟩] :=
    Pattern.wordAndBlanks_space areNames_fieldModifiers.solid nodup_fieldModifiers hw (stops_typeRef t _)
  obtain ⟨taken, hend⟩ := first?_fieldEnd t x rest
  have hmodifiers : (Pattern.upTo 5 (Pattern.wordAndBlanks fieldModifiers) >>= fun _ => Outline.fieldEnd).first?
      (t.render ++ ' ' :: (x.1 ++ ';' :: rest)) = some ⟨(t.render, x.1), taken, rest⟩ := by
    have hskip := bind_upTo_words hx (by decide) areNames_fieldModifiers t 5 (f := fun _ => Outline.fieldEnd)
      (fieldEnd_eq_nil x rest)
    rw [Pattern.first?, hskip]
    exact hend
  refine ⟨w ++ [' '] ++ taken, ?_⟩
  rw [Pattern.first?, Outline.fieldPattern_eq, Pattern.bind_of_empty (attributes_word (isRun_fieldModifiers w hw) _)]
  exact Pattern.first?_upTo_bind hword hmodifiers

/-- **a written field is read back** -/
theorem memberType?_fieldLine (t : TypeRef) (x : Identifier) : Outline.memberType? (fieldLine t x) = some t.tree := by
  obtain ⟨taken, hfirst⟩ := first?_fieldPattern private_mem_fieldModifiers t x []
  have htype := t.isTypeText.clean.isNonTypeWord_eq_false
  have hname := (clean_of_isIdentifier x.2.1).isNonTypeWord_eq_false
  have hfield := Outline.memberType?_of_first? hfirst htype hname
  rw [t.parse_typeRef] at hfield
  exact hfield

/-! ## Methods -/

theorem blanks_parenthesis (rest : Text) : Pattern.blanks ('(' :: rest) = [⟨(), [], '(' :: rest⟩] :=
  Pattern.blanks_eq (stops_cons (by decide) rest)

/-- the parenthesis after a name -/
theorem first?_parenthesis (v rest : Text) :
    (do Pattern.blanks; Pattern.char '('; return v : Pattern Text).first? ('(' :: rest) = some ⟨v, ['('], rest⟩ := by
  rw [Pattern.first?, Pattern.bind_of_empty (blanks_parenthesis rest),
    Pattern.bind_singleton (Pattern.char_cons '(' rest)]
  rfl

section Name

variable {m : Text} (hm : IsRun isNameChar m) (hlen : m.length ≤ 128) (rest : Text)
include hm hlen

theorem methodEnd_eq_nil : Outline.methodEnd (m ++ '(' :: rest) = [] :=
  Pattern.bind_eq_nil (typeAndName_eq_nil hm (by decide) hlen) _

theorem first?_methodEnd (t : TypeRef) :
    ∃ taken, Outline.methodEnd.first? (t.render ++ ' ' :: (m ++ '(' :: rest)) = some ⟨t.render, taken, rest⟩ := by
  have hdeclared : Outline.typeAndName.first? (t.render ++ ' ' :: (m ++ '(' :: rest)) =
      some ⟨(t.render, m), t.render ++ ' ' :: m, '(' :: rest⟩ :=
    first?_typeAndName hm (by decide) t hlen
  have hangles : Pattern.optional (Pattern.angleList Outline.isTypeParameterChar 128) ('(' :: rest) =
      [⟨(), [], '(' :: rest⟩] := Pattern.optional_of_nil (Pattern.bind_eq_nil (Pattern.char_eq_nil (by decide) rest) _)
  have hend : (do
      Pattern.blanks
      Pattern.optional (Pattern.angleList Outline.isTypeParameterChar 128)
      Pattern.blanks
      Pattern.char '('
      return t.render : Pattern Text).first? ('(' :: rest) = some ⟨t.render, ['('], rest⟩ := by
    rw [Pattern.first?, Pattern.bind_of_empty (blanks_parenthesis rest), Pattern.bind_of_empty hangles]
    exact first?_parenthesis t.render rest
  exact ⟨_, Pattern.first?_bind hdeclared hend⟩

/-- the modifiers of a method and what comes after them, on a text that starts with the result -/
theorem first?_methodModifiers (t : TypeRef) :
    ∃ taken, (Pattern.optional (Pattern.wordAndBlanks visibilityWords) >>= fun _ =>
      Pattern.upTo 6 (Pattern.wordAndBlanks methodModifiers) >>= fun _ => Outline.methodEnd).first?
        (t.render ++ ' ' :: (m ++ '(' :: rest)) = some ⟨t.render, taken, rest⟩ := by
  have hname : (Pattern.upTo 6 (Pattern.wordAndBlanks methodModifiers) >>= fun _ => Outline.methodEnd)
      (m ++ '(' :: rest) = [] := by
    rw [Pattern.bind_of_empty (Pattern.upTo_of_nil (wordAndBlanks_name hm (by decide) areNames_methodModifiers) 6)]
    exact methodEnd_eq_nil hm hlen rest
  obtain ⟨taken, hend⟩ := first?_methodEnd hm hlen rest t
  have hwords := bind_upTo_words hm (by decide) areNames_methodModifiers t 6 (f := fun _ => Outline.methodEnd)
    (methodEnd_eq_nil hm hlen rest)
  refine ⟨taken, ?_⟩
  rw [Pattern.first?, bind_optional_word hm areNames_visibilityWords t hname, hwords]
  exact hend

theorem first?_methodPattern {w : Text} (hw : w ∈ visibilityWords) (t : TypeRef) :
    ∃ taken, Outline.methodPattern.first? (w ++ ' ' :: (t.render ++ ' ' :: (m ++ '(' :: rest))) =
      some ⟨t.render, taken, rest⟩ := by
  obtain ⟨taken, hmodifiers⟩ := first?_methodModifiers hm hlen rest t
  have hvisible : (Pattern.wordAndBlanks visibilityWords).first?
      (w ++ ' ' :: (t.render ++ ' ' :: (m ++ '(' :: rest))) =
        some ⟨(), w ++ [' '], t.render ++ ' ' :: (m ++ '(' :: rest)⟩ := by
    rw [Pattern.first?, visibilityWord hw (stops_typeRef t _)]
    rfl
  refine ⟨w ++ [' '] ++ taken, ?_⟩
  rw [Pattern.first?, Outline.methodPattern_eq, Pattern.bind_of_empty (attributes_word (isRun_visibilityWords w hw) _),
    Outline.visibility, Pattern.bind_bind]
  exact Pattern.first?_bind hvisible hmodifiers

end Name

/-- `void` as the type that is written for no result -/
def voidRef : TypeRef where
  shape := .plain ⟨"void".toList, by decide⟩
  ordinary := by decide
  fits := by decide
  mark := none

/-- the type that is written before a method -/
def resultRef : Option Result → TypeRef
  | some t => t.1
  | none => voidRef

theorem render_resultRef (result : Option Result) : (resultRef result).render = resultText result := by
  cases result with
  | some t => rfl
  | none => decide

theorem resultType?_resultText (result : Option Result) :
    Outline.resultType? (resultText result) = result.map fun t => t.1.tree := by
  cases result with
  | some t => rw [resultText, Outline.resultType?, if_neg t.2, t.1.parse_typeRef, Option.map_some]
  | none => rw [resultText, Outline.resultType?, if_pos rfl, Option.map_none]

/-- **a written method is read back** -/
theorem method?_methodLine (result : Option Result) (m : Identifier) (parameters : List Parameter) :
    Outline.method? (methodLine result m parameters) =
      some ⟨result.map fun t => t.1.tree, parameters.map fun p => p.type.tree⟩ := by
  obtain ⟨taken, hfirst⟩ := first?_methodPattern (isRun_of_isIdentifier m.2.1) m.2.2
    (parametersText parameters ++ [')', ' ', '{']) public_mem_visibilityWords (resultRef result)
  have htype := (resultRef result).isTypeText.clean.isNonTypeWord_eq_false
  rw [render_resultRef] at hfirst htype
  have hmethod := Outline.method?_of_first? hfirst htype
  rw [resultType?_resultText, parametersAfter_text] at hmethod
  exact hmethod

/-! ## Constructors -/

section Constructor

variable {n : Text} (hn : IsRun isNameChar n) (hlen : n.length ≤ 128) (rest : Text)
include hn

theorem optional_visibility_name : Pattern.optional (Pattern.wordAndBlanks visibilityWords) (n ++ '(' :: rest) =
    [⟨(), [], n ++ '(' :: rest⟩] :=
  Pattern.optional_of_nil (wordAndBlanks_name hn (by decide) areNames_visibilityWords)

include hlen

/-- the name right before the parenthesis leaves no room for a result -/
theorem methodPattern_constructor {w : Text} (hw : w ∈ visibilityWords) :
    Outline.methodPattern (w ++ ' ' :: (n ++ '(' :: rest)) = [] := by
  have hwords : Pattern.upTo 6 (Pattern.wordAndBlanks methodModifiers) (n ++ '(' :: rest) =
      [⟨(), [], n ++ '(' :: rest⟩] :=
    Pattern.upTo_of_nil (wordAndBlanks_name hn (by decide) areNames_methodModifiers) 6
  rw [Outline.methodPattern_eq, Pattern.bind_of_empty (attributes_word (isRun_visibilityWords w hw) _),
    Outline.visibility, Pattern.bind_bind, Pattern.bind_singleton (visibilityWord hw (hn.stops_isBlank _)),
    Pattern.bind_of_empty (optional_visibility_name hn rest), Pattern.bind_of_empty hwords,
    methodEnd_eq_nil hn hlen]
  rfl

theorem first?_constructorPattern {w : Text} (hw : w ∈ visibilityWords) :
    ∃ taken, Outline.constructorPattern.first? (w ++ ' ' :: (n ++ '(' :: rest)) = some ⟨n, taken, rest⟩ := by
  have hname : Pattern.identifier.first? (n ++ '(' :: rest) = some ⟨(), n, '(' :: rest⟩ := by
    rw [Pattern.first?, Pattern.identifier_append hn hlen (stops_cons (by decide) rest)]
    rfl
  have hend : Outline.constructorEnd.first? (n ++ '(' :: rest) = some ⟨n, n ++ ['('], rest⟩ :=
    Pattern.first?_bind (Pattern.first?_capture hname) (first?_parenthesis n rest)
  have hlater : (Pattern.optional (Pattern.wordAndBlanks visibilityWords) >>= fun _ => Outline.constructorEnd).first?
      (n ++ '(' :: rest) = some ⟨n, n ++ ['('], rest⟩ := by
    rw [Pattern.first?, Pattern.bind_of_empty (optional_visibility_name hn rest)]
    exact hend
  have hword : (Pattern.wordAndBlanks visibilityWords).first? (w ++ ' ' :: (n ++ '(' :: rest)) =
      some ⟨(), w ++ [' '], n ++ '(' :: rest⟩ := by
    rw [Pattern.first?, visibilityWord hw (hn.stops_isBlank _)]
    rfl
  refine ⟨w ++ [' '] ++ (n ++ ['(']), ?_⟩
  rw [Pattern.first?, Outline.constructorPattern_eq,
    Pattern.bind_of_empty (attributes_word (isRun_visibilityWords w hw) _), Outline.visibility, Pattern.bind_bind]
  exact Pattern.first?_bind hword hlater

end Constructor

/-- **a written constructor is read back**, and not taken for a method -/
theorem constructor?_constructorLine (n : Identifier) (parameters : List Parameter) :
    Outline.method? (constructorLine n parameters) = none ∧
      Outline.constructor? n.1 (constructorLine n parameters) = some ⟨n.1, parameters.map fun p => p.type.tree⟩ := by
  constructor
  · have hnone : Outline.methodPattern (constructorLine n parameters) = [] :=
      methodPattern_constructor (isRun_of_isIdentifier n.2.1) n.2.2 _ public_mem_visibilityWords
    have hfirst : Outline.methodPattern.first? (constructorLine n parameters) = none := by
      rw [Pattern.first?, hnone]
      rfl
    simp [Outline.method?, hfirst]
  · obtain ⟨taken, hfirst⟩ := first?_constructorPattern (isRun_of_isIdentifier n.2.1) n.2.2
      (parametersText parameters ++ [')', ' ', '{']) public_mem_visibilityWords
    have hconstructor := Outline.constructor?_of_first? hfirst
    rw [parametersAfter_text] at hconstructor
    exact hconstructor

/-! ## What a line does not declare -/

theorem IsTypeText.not_mem {s : Text} (h : IsTypeText s) {c : Char} (hc : isArgumentChar c = false) : c ∉ s := by
  intro hm
  rw [h.chars c hm] at hc
  contradiction

theorem Parameter.isTypeText (p : Parameter) : IsTypeText p.render :=
  p.type.isTypeText.append_space (isTypeText_of_isIdentifier p.name.2.1)

theorem isTypeText_parametersText (parameters : List Parameter) : IsTypeText (parametersText parameters) := by
  refine IsTypeText.intercalate fun q hq => ?_
  obtain ⟨p, -, rfl⟩ := List.mem_map.1 hq
  exact p.isTypeText

theorem memberType?_parametersEnd {before : Text} (hb : IsTypeText before) (parameters : List Parameter) :
    Outline.memberType? (before ++ parametersEnd parameters) = none := by
  have hp := isTypeText_parametersText parameters
  have hline : before ++ parametersEnd parameters =
      (before ++ '(' :: parametersText parameters) ++ [')', ' ', '{'] := by
    simp [parametersEnd]
  have hfree : ∀ c, isArgumentChar c = false → c ≠ '(' → c ∉ before ++ '(' :: parametersText parameters := by
    intro c hc hopen
    simp [hb.not_mem hc, hp.not_mem hc, hopen]
  rw [hline]
  exact Outline.memberType?_parenthesis (hfree '=' (by decide) (by decide)) (hfree ';' (by decide) (by decide))
    (hfree '{' (by decide) (by decide))

/-! ## Each kind of line -/

variable (n : Identifier)

theorem isTypeText_public : IsTypeText ("public" : Text) := isTypeText_of_isIdentifier (by decide)

theorem isTypeText_private : IsTypeText ("private" : Text) := isTypeText_of_isIdentifier (by decide)

theorem isTypeText_resultText (result : Option Result) : IsTypeText (resultText result) :=
  render_resultRef result ▸ (resultRef result).isTypeText

theorem isTypeText_field (t : TypeRef) (x : Identifier) :
    IsTypeText (("private" : Text) ++ ' ' :: (t.render ++ ' ' :: x.1)) :=
  isTypeText_private.append_space (t.isTypeText.append_space (isTypeText_of_isIdentifier x.2.1))

theorem isTypeText_constructor : IsTypeText (("public" : Text) ++ ' ' :: n.1) :=
  isTypeText_public.append_space (isTypeText_of_isIdentifier n.2.1)

theorem isTypeText_method (result : Option Result) (m : Identifier) :
    IsTypeText (("public" : Text) ++ ' ' :: (resultText result ++ ' ' :: m.1)) :=
  isTypeText_public.append_space ((isTypeText_resultText result).append_space (isTypeText_of_isIdentifier m.2.1))

/-- the end of a line moved out -/
theorem append_space_assoc (w a b e : Text) :
    w ++ ' ' :: (a ++ ' ' :: (b ++ e)) = w ++ ' ' :: (a ++ ' ' :: b) ++ e := by
  simp

theorem fieldLine_eq (t : TypeRef) (x : Identifier) :
    fieldLine t x = ("private" : Text) ++ ' ' :: (t.render ++ ' ' :: x.1) ++ [';'] :=
  append_space_assoc _ _ _ _

theorem constructorLine_eq (parameters : List Parameter) :
    constructorLine n parameters = ("public" : Text) ++ ' ' :: n.1 ++ parametersEnd parameters :=
  (List.append_assoc _ (' ' :: n.1) _).symm

theorem methodLine_eq (result : Option Result) (m : Identifier) (parameters : List Parameter) :
    methodLine result m parameters =
      ("public" : Text) ++ ' ' :: (resultText result ++ ' ' :: m.1) ++ parametersEnd parameters :=
  append_space_assoc _ _ _ _

theorem IsTypeText.not_mem_concat {s : Text} (h : IsTypeText s) {c d : Char} (hc : isArgumentChar c = false)
    (hne : c ≠ d) : c ∉ s ++ [d] := by
  simp [h.not_mem hc, hne]

theorem declaredOn_fieldLine (t : TypeRef) (x : Identifier) :
    Outline.declaredOn n.1 (fieldLine t x) = ⟨some t.tree, none, none⟩ := by
  have hparen : '(' ∉ fieldLine t x := by
    rw [fieldLine_eq]
    exact (isTypeText_field t x).not_mem_concat (by decide) (by decide)
  rw [Outline.declaredOn, memberType?_fieldLine, Outline.method?_eq_none hparen, Outline.constructor?_eq_none hparen]
  rfl

theorem declaredOn_constructorLine (parameters : List Parameter) :
    Outline.declaredOn n.1 (constructorLine n parameters) =
      ⟨none, none, some ⟨n.1, parameters.map fun p => p.type.tree⟩⟩ := by
  obtain ⟨hmethod, hconstructor⟩ := constructor?_constructorLine n parameters
  have htype : Outline.memberType? (constructorLine n parameters) = none := by
    rw [constructorLine_eq]
    exact memberType?_parametersEnd (isTypeText_constructor n) parameters
  rw [Outline.declaredOn, htype, hmethod, hconstructor]
  rfl

theorem declaredOn_methodLine (result : Option Result) (m : Identifier) (parameters : List Parameter) :
    Outline.declaredOn n.1 (methodLine result m parameters) =
      ⟨none, some ⟨result.map fun t => t.1.tree, parameters.map fun p => p.type.tree⟩, none⟩ := by
  have htype : Outline.memberType? (methodLine result m parameters) = none := by
    rw [methodLine_eq]
    exact memberType?_parametersEnd (isTypeText_method result m) parameters
  rw [Outline.declaredOn, htype, method?_methodLine]
  rfl

theorem declaredOn_braceLine : Outline.declaredOn n.1 braceLine = ⟨none, none, none⟩ := by
  have hparen : '(' ∉ braceLine := by decide
  have htype : Outline.memberType? braceLine = none := by
    refine Outline.memberType?_eq_none (by decide) fun a d gap b hs => ?_
    have hbrace : '{' ∈ braceLine := by simp [hs]
    exact absurd hbrace (by decide)
  rw [Outline.declaredOn, htype, Outline.method?_eq_none hparen, Outline.constructor?_eq_none hparen]
  rfl

end ClassAtlas.Written
