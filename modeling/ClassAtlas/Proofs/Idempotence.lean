/-
Canonical text, put into canonical form once more.

A canonical line without a pair of block comment marks is its own canonical line: nothing of it is cut off, and
nothing stands behind the terminator at its end (`canonicalLine_of_isCanonical`). A line with such a pair loses the
slashes of the marks. It may come about where a comment kept the two characters of a mark apart, so a second pass may
find what the first one could not. It changes nothing exactly if there is no such pair (`canonical_again_iff`).
-/
import Mathlib.Algebra.Order.BigOperators.Group.List
import Mathlib.Algebra.Order.Group.Nat
import ClassAtlas.Proofs.Literal.Line

namespace ClassAtlas.Source

open Nesting (Delimiters State)

/-! ## A line in canonical form -/

/-- a text whose only terminator is its last character is one statement, with nothing behind it -/
theorem statementsFrom_of_unbroken {s : State} {line : Text} (h : Unbroken s line) :
    statementsFrom s line = [line] ∨ statementsFrom s line = [line, []] := by
  induction line generalizing s with
  | nil => exact Or.inl rfl
  | cons c rest ih =>
    have hrest : Unbroken (s.step Delimiters.literals c) rest := fun a d b hp htop ht =>
      h (c :: a) d b (by rw [hp, List.cons_append]) htop ht
    unfold statementsFrom
    by_cases hc : (s.atTop && isTerminator c) = true
    · obtain ⟨htop, ht⟩ := Bool.and_eq_true_iff.1 hc
      obtain rfl : rest = [] := h [] c rest rfl htop ht
      exact Or.inr (if_pos hc)
    · rcases ih hrest with hparts | hparts
      · exact Or.inl (by rw [hparts, if_neg hc]; rfl)
      · exact Or.inr (by rw [hparts, if_neg hc]; rfl)

namespace IsCanonical

variable {line : Text}

theorem unbroken (h : IsCanonical line) : Unbroken {} line := fun a c b hline htop =>
  h.terminator_last a c b hline (Nesting.outsideLiterals_iff.2 htop)

theorem trimmedStatements_eq (h : IsCanonical line) : trimmedStatements line = [line] := by
  have hkept : ([line].map Text.trim).filter (fun part => !part.isEmpty) = [line] := by
    simp [h.trimmed, h.ne_nil]
  have hempty : ([[]] : List Text).map Text.trim = [[]] := rfl
  rw [trimmedStatements, statements]
  rcases statementsFrom_of_unbroken h.unbroken with hparts | hparts
  · rw [hparts, hkept]
  · rw [hparts, ← List.singleton_append, List.map_append, List.filter_append, hkept, hempty]
    rfl

theorem removeLineComment_eq_self (h : IsCanonical line) : removeLineComment line = line := by
  refine removeLineComment_eq_self_iff.2 (Nesting.cutFrom_eq_none_iff.2 fun a b hline hplace => ?_)
  obtain ⟨rest, rfl⟩ := List.isPrefixOf_iff_prefix.1 hplace.passes
  rw [← List.append_assoc] at hline
  exact h.comment_free a rest hline (Nesting.outsideLiterals_iff.2 hplace.atTop)

end IsCanonical

/-- a canonical line gives itself -/
theorem canonicalLine_of_isCanonical {line : Text} (h : IsCanonical line) (hb : BlockFree line) :
    canonicalLine line = [line] := by
  rw [canonicalLine_of_blockFree hb, h.removeLineComment_eq_self, h.trimmedStatements_eq]

/-! ## A line with block comment marks -/

/-- no line gains a slash, and the marks of a block comment take theirs along -/
theorem count_slash_canonical_le_self (line : OneLine) :
    (canonical line.1).count '/' ≤ line.1.count '/' ∧
      (¬ BlockFree line.1 → (canonical line.1).count '/' < line.1.count '/') := by
  have hle := count_slash_canonical_le line
  have hspans := spansRemoved_removeBlockComments line.1
  exact ⟨hle.trans (hspans.sublist.count_le '/'), fun h => Nat.lt_of_le_of_lt hle (hspans.count_slash_lt h)⟩

/-! ## The whole text -/

/-- the second pass goes over the canonical lines one by one -/
theorem canonicalLines_canonical (source : Text) :
    canonicalLines (canonical source) = (canonicalLines source).flatMap canonicalLine := by
  rw [canonicalLines_eq, lines_canonical]

theorem canonical_canonical (source : Text) :
    canonical (canonical source) = (canonicalLines source).flatMap canonical := by
  have hline : ∀ line ∈ canonicalLines source, Text.unlines (canonicalLine line) = canonical line := by
    intro line hline
    rw [canonical, canonicalLines_oneLine ⟨line, feed_not_mem_canonicalLines hline⟩]
  calc canonical (canonical source)
      = Text.unlines ((canonicalLines source).flatMap canonicalLine) := by rw [canonical, canonicalLines_canonical]
    _ = (canonicalLines source).flatMap fun line => Text.unlines (canonicalLine line) := List.flatMap_assoc
    _ = (canonicalLines source).flatMap canonical := List.flatMap_congr hline

/-- a pair of marks on some line costs the whole text a slash -/
theorem count_slash_canonical_canonical_lt {source line : Text} (hline : line ∈ canonicalLines source)
    (hblock : ¬ BlockFree line) : (canonical (canonical source)).count '/' < (canonical source).count '/' := by
  have hfeed : ∀ l : Text, (l ++ ['\n']).count '/' = l.count '/' := fun l => by simp
  have hone : ∀ l ∈ canonicalLines source, '\n' ∉ l := fun l hl => feed_not_mem_canonicalLines hl
  rw [canonical_canonical, canonical, Text.unlines, List.count_flatMap, List.count_flatMap]
  refine List.sum_lt_sum _ _ (fun l hl => ?_) ⟨line, hline, ?_⟩
  · rw [Function.comp_apply, Function.comp_apply, hfeed]
    exact (count_slash_canonical_le_self ⟨l, hone l hl⟩).1
  · rw [Function.comp_apply, Function.comp_apply, hfeed]
    exact (count_slash_canonical_le_self ⟨line, hone line hline⟩).2 hblock

/-- **Canonical text is left as it is by a second pass exactly if none of its lines holds a pair of block comment
marks.** -/
theorem canonical_again_iff (source : Text) :
    canonical (canonical source) = canonical source ↔ ∀ line ∈ Text.lines (canonical source), BlockFree line := by
  rw [lines_canonical]
  constructor
  · intro hsame line hline
    by_contra hblock
    have hlt := count_slash_canonical_canonical_lt hline hblock
    rw [hsame] at hlt
    exact Nat.lt_irrefl _ hlt
  · intro hfree
    have hlines : canonicalLines (canonical source) = canonicalLines source := by
      rw [canonicalLines_canonical]
      calc (canonicalLines source).flatMap canonicalLine
          = (canonicalLines source).flatMap fun line => [line] := List.flatMap_congr fun line hline =>
            canonicalLine_of_isCanonical (isCanonical_of_mem_canonicalLines hline) (hfree line hline)
        _ = canonicalLines source := List.flatMap_singleton' _
    rw [canonical, hlines, canonical]

/-- the first comment of `x//* c */* a */` keeps the two characters of a mark apart -/
example : canonical ("x//* c */* a */" : String) = ("x/* a */\n" : String).toList ∧
    canonical ("x/* a */\n" : String) = ("x\n" : String).toList := by
  decide +kernel

end ClassAtlas.Source
