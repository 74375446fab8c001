/-
The lines of a text.

`lines` cuts after every line feed and takes one carriage return before it along, so `lines_feed` says what a line with
its line feed adds to the lines of what follows. Writing lines with line feeds after them and cutting again gives them
back, apart from a carriage return at the end of each (`lines_unlines`).
-/
import Mathlib.Data.List.Basic
import ClassAtlas.Proofs.Text

namespace ClassAtlas.Text

/-! ## One line -/

/-- the line without one carriage return at its end -/
def dropReturn (line : Text) : Text := if line.getLast? = some '\r' then line.dropLast else line

theorem dropReturn_concat_return (line : Text) : dropReturn (line ++ ['\r']) = line := by
  simp [dropReturn]

theorem dropReturn_concat {c : Char} (hc : c ≠ '\r') (line : Text) : dropReturn (line ++ [c]) = line ++ [c] := by
  simp [dropReturn, hc]

/-- a line is as it is, or ends with the carriage return that is dropped -/
theorem dropReturn_cases (line : Text) : dropReturn line = line ∨ line = dropReturn line ++ ['\r'] := by
  rcases List.eq_nil_or_concat' line with rfl | ⟨body, c, rfl⟩
  · exact Or.inl rfl
  · by_cases hc : c = '\r'
    · subst hc
      exact Or.inr (by rw [dropReturn_concat_return])
    · exact Or.inl (dropReturn_concat hc body)

/-- a carriage return that no line feed follows is a character like any other -/
theorem foldr_lineStep {s : Text} (hs : '\n' ∉ s) (ls : List Text) :
    s.foldr lineStep (ls, false) = (s.foldr consFirst ls, false) := by
  induction s with
  | nil => rfl
  | cons c s ih =>
    have hc : c ≠ '\n' := fun he => hs (by simp [he])
    have hrest : '\n' ∉ s := fun hm => hs (List.mem_cons_of_mem c hm)
    rw [List.foldr_cons, ih hrest, List.foldr_cons]
    simp [lineStep, hc]

theorem foldr_lineStep_concat {s : Text} (hs : '\n' ∉ s) {c : Char} (hn : c ≠ '\n') (hr : c ≠ '\r')
    (acc : List Text × Bool) : (s ++ [c]).foldr lineStep acc = ((s ++ [c]).foldr consFirst acc.1, false) := by
  have hlast : lineStep c acc = (consFirst c acc.1, false) := by simp [lineStep, hn, hr]
  rw [List.foldr_append, List.foldr_cons, List.foldr_nil, hlast, foldr_lineStep hs]
  simp [List.foldr_append]

/-- a line with its line feed comes first -/
theorem lines_feed {line : Text} (hl : '\n' ∉ line) (rest : Text) :
    lines (line ++ '\n' :: rest) = dropReturn line :: lines rest := by
  have hfeed : lineStep '\n' (rest.foldr lineStep ([], false)) = ([] :: lines rest, true) := rfl
  rw [lines, List.foldr_append, List.foldr_cons, hfeed]
  rcases List.eq_nil_or_concat' line with rfl | ⟨body, c, rfl⟩
  · rfl
  · have hbody : '\n' ∉ body := fun hm => hl (List.mem_append_left [c] hm)
    have hc : c ≠ '\n' := fun he => hl (by simp [he])
    by_cases hr : c = '\r'
    · -- the carriage return belongs to the end of the line
      subst hr
      have hreturn : lineStep '\r' ([] :: lines rest, true) = ([] :: lines rest, false) := by simp [lineStep]
      rw [List.foldr_append, List.foldr_cons, List.foldr_nil, hreturn, foldr_lineStep hbody, foldr_consFirst,
        dropReturn_concat_return, List.append_nil]
    · rw [foldr_lineStep_concat hbody hc hr, foldr_consFirst, dropReturn_concat hr, List.append_nil]

/-- a text without a line feed is one line, if it is not empty -/
theorem lines_last {last : Text} (hl : '\n' ∉ last) : lines last = if last = [] then [] else [last] := by
  rw [lines, foldr_lineStep hl]
  rcases List.eq_nil_or_concat' last with rfl | ⟨body, c, rfl⟩
  · rfl
  · have hne : body ++ [c] ≠ [] := by simp
    rw [if_neg hne, List.foldr_append]
    exact foldr_consFirst body [c] []

/-- the lines hold characters of the text, and no line feed -/
theorem mem_of_mem_lines {s line : Text} (hl : line ∈ lines s) {c : Char} (hc : c ∈ line) : c ∈ s ∧ c ≠ '\n' := by
  induction hn : s.length using Nat.strong_induction_on generalizing s with | h n ih
  by_cases hs : '\n' ∈ s
  · obtain ⟨first, rest, rfl, hfirst⟩ := List.eq_append_cons_of_mem hs
    rw [lines_feed hfirst] at hl
    rcases List.mem_cons.1 hl with rfl | hl
    · have hmem : c ∈ first := by
        rcases dropReturn_cases first with he | he
        · rwa [he] at hc
        · rw [he]
          exact List.mem_append_left _ hc
      exact ⟨List.mem_append_left _ hmem, fun he => hfirst (he ▸ hmem)⟩
    · have hlt : rest.length < n := by
        simp only [List.length_append, List.length_cons] at hn
        omega
      obtain ⟨hmem, hne⟩ := ih rest.length hlt hl rfl
      exact ⟨List.mem_append_right _ (List.mem_cons_of_mem _ hmem), hne⟩
  · rw [lines_last hs] at hl
    split at hl
    · contradiction
    · obtain rfl := List.mem_singleton.1 hl
      exact ⟨hc, fun he => hs (he ▸ hc)⟩

/-! ## Joined lines -/

theorem unlines_cons (line : Text) (ls : List Text) : unlines (line :: ls) = line ++ '\n' :: unlines ls := by
  simp [unlines]

theorem unlines_append (a b : List Text) : unlines (a ++ b) = unlines a ++ unlines b := List.flatMap_append

/-- joined lines are found again, each without a carriage return at its end -/
theorem lines_unlines {ls : List Text} (h : ∀ line ∈ ls, '\n' ∉ line) : lines (unlines ls) = ls.map dropReturn := by
  induction ls with
  | nil => rfl
  | cons line ls ih =>
    have hrest : ∀ l ∈ ls, '\n' ∉ l := fun l hl => h l (List.mem_cons_of_mem line hl)
    rw [unlines_cons, lines_feed (h line List.mem_cons_self), ih hrest, List.map_cons]

end ClassAtlas.Text
