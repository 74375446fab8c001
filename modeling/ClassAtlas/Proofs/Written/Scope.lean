/-
Written scopes are read back: the line of an import imports its namespace, the line of a namespace declares it, and no
other line of a file does either, since none starts with the letter of such a word.
-/
import ClassAtlas.Proofs.Written.Parameter
import ClassAtlas.Source.Scope

namespace ClassAtlas.Written

open Pattern (Stops stops_cons)

/-! ## Lines without a scope -/

theorem namespaceOf?_eq_none {line : Text} (h : line.head? ≠ some 'n') : Source.namespaceOf? line = none := by
  have hnone : Source.namespacePattern.first? line = none := by
    refine Pattern.first?_eq_none fun a t r hm => h ?_
    obtain ⟨_, _, s, _, hword, -, -⟩ := Pattern.mem_bind.1 hm
    obtain ⟨-, rfl⟩ := Pattern.mem_literal.1 hword
    rfl
  rw [Source.namespaceOf?, hnone, Option.map_none]

theorem importOf?_eq_none {line : Text} (hg : line.head? ≠ some 'g') (hu : line.head? ≠ some 'u') :
    Source.importOf? line = none := by
  have hnone : Source.importPattern.first? line = none := by
    refine Pattern.first?_eq_none fun a t r hm => ?_
    obtain ⟨_, _, s, _, hglobal, h₁, -⟩ := Pattern.mem_bind.1 hm
    rcases Pattern.mem_optional.1 hglobal with hglobal | ⟨-, rfl⟩
    · obtain ⟨_, _, _, _, hword, -, -⟩ := Pattern.mem_bind.1 hglobal
      obtain ⟨w, hw, hword⟩ := List.mem_flatMap.1 hword
      obtain ⟨-, rfl⟩ := Pattern.mem_literal.1 hword
      obtain rfl : w = ("global" : Text) := by simpa using hw
      exact hg rfl
    · obtain ⟨_, _, _, _, hword, -, -⟩ := Pattern.mem_bind.1 h₁
      obtain ⟨-, rfl⟩ := Pattern.mem_literal.1 hword
      exact hu rfl
  rw [Source.importOf?, hnone, Option.map_none]

/-! ## Lines with one -/

section Named

variable (name : Dotted 256)

theorem first?_space_name :
    Pattern.someBlanks.first? (' ' :: (name.1 ++ [';'])) = some ⟨(), [' '], name.1 ++ [';']⟩ := by
  obtain ⟨c, rest, hname, hc, -⟩ := isRun_of_isDotted name.2.1
  have hsolid := Text.not_isBlank_of_isNameChar (Pattern.isNameChar_of_isNameStart hc)
  have hstops : Stops Text.isBlank (name.1 ++ [';']) := by
    rw [hname]
    exact stops_cons hsolid _
  exact congrArg List.head? (Pattern.someBlanks_space hstops)

theorem first?_name :
    (Pattern.capture (Pattern.dottedName 255)).first? (name.1 ++ [';']) = some ⟨name.1, name.1, [';']⟩ :=
  Pattern.first?_capture (congrArg List.head?
    (Pattern.dottedName_append (isRun_of_isDotted name.2.1) name.2.2 (stops_cons (by decide) [])))

theorem namespaceOf?_scopeLine : Source.namespaceOf? (scopeLine name) = some name.1 := by
  have hfirst : ∃ taken, Source.namespacePattern.first? (scopeLine name) = some ⟨name.1, taken, [';']⟩ :=
    ⟨_, Pattern.first?_bind (Pattern.first?_literal _ _)
      (Pattern.first?_bind (first?_space_name name) (first?_name name))⟩
  obtain ⟨taken, hfirst⟩ := hfirst
  rw [Source.namespaceOf?, hfirst]
  rfl

/-- the name reaches to the semicolon, so that no word of the list stands before it -/
theorem static_absent :
    Pattern.optional (Pattern.wordAndBlanks ["static"]) (name.1 ++ [';']) = [⟨(), [], name.1 ++ [';']⟩] := by
  have hsolid : ∀ c ∈ name.1 ++ [';'], (!Text.isBlank c) = true := by
    intro c hc
    rcases List.mem_append.1 hc with hc | hc
    · simp [Text.not_isBlank_of_isDottedChar (isDottedChar_of_isDotted name.2.1 c hc)]
    · obtain rfl := List.mem_singleton.1 hc
      decide
  refine Pattern.optional_of_nil (Pattern.wordAndBlanks_eq_nil (by decide) ?_)
  rw [List.takeWhile_eq_self_iff.2 hsolid, List.mem_singleton]
  intro he
  have hmem : ';' ∈ name.1 ++ [';'] := by simp
  rw [he] at hmem
  exact absurd hmem (by decide)

theorem global_absent :
    Pattern.optional (Pattern.wordAndBlanks ["global"]) (importLine name) = [⟨(), [], importLine name⟩] := by
  refine Pattern.optional_of_nil (Pattern.wordAndBlanks_eq_nil (by decide) ?_)
  have hfirst : (importLine name).takeWhile (!Text.isBlank ·) = ("using" : Text) :=
    Text.takeWhile_append_cons (by decide) (by decide)
  rw [hfirst]
  decide

theorem importOf?_importLine : Source.importOf? (importLine name) = some name.1 := by
  have hend : (do Pattern.blanks; Pattern.char ';'; return name.1 : Pattern Text).first? [';'] =
      some ⟨name.1, [';'], []⟩ := by
    rw [Pattern.first?, Pattern.bind_of_empty (Pattern.blanks_eq (stops_cons (by decide) [])),
      Pattern.bind_singleton (Pattern.char_cons ';' [])]
    rfl
  have hfirst : ∃ taken, Source.importPattern.first? (importLine name) = some ⟨name.1, taken, []⟩ :=
    ⟨_, Pattern.first?_bind (congrArg List.head? (global_absent name)) (Pattern.first?_bind (Pattern.first?_literal _ _)
      (Pattern.first?_bind (first?_space_name name) (Pattern.first?_bind (congrArg List.head? (static_absent name))
        (Pattern.first?_bind (first?_name name) hend))))⟩
  obtain ⟨taken, hfirst⟩ := hfirst
  rw [Source.importOf?, hfirst]
  rfl

end Named

end ClassAtlas.Written
