/-
Where texts are cut, and what trimming leaves.

`splitFirst?` and `splitLast?` undo the writing of one character between two texts, as long as that character does not
occur on the side that the search crosses. Trimming undoes the writing of blanks around a text that neither starts nor
ends with one.
-/
import Mathlib.Data.List.TakeWhile
import ClassAtlas.Text.Basic

namespace ClassAtlas.Text

/-- a property of all characters of a text is decided character by character of the text, not of the alphabet -/
instance (priority := high) decidableForallMem (s : Text) (p : Char → Prop) [DecidablePred p] :
    Decidable (∀ c ∈ s, p c) :=
  List.decidableBAll p s

/-! ## Cutting at a character -/

/-- a test that holds of a whole text and fails after it stops exactly there -/
theorem takeWhile_append_cons {p : Char → Bool} {a b : Text} {c : Char} (ha : ∀ x ∈ a, p x = true) (hc : p c = false) :
    (a ++ c :: b).takeWhile p = a := by
  rw [List.takeWhile_append_of_pos ha, List.takeWhile_cons_of_neg (by simp [hc]), List.append_nil]

theorem dropWhile_append_cons {p : Char → Bool} {a b : Text} {c : Char} (ha : ∀ x ∈ a, p x = true) (hc : p c = false) :
    (a ++ c :: b).dropWhile p = c :: b := by
  rw [List.dropWhile_append_of_pos ha, List.dropWhile_cons_of_neg (by simp [hc])]

/-- a text is read as far as a character that occurs, whatever stands behind it -/
theorem takeWhile_append_stop (c : Char) (a b : Text) :
    (a ++ c :: b).takeWhile (· != c) = a.takeWhile (· != c) := by
  rw [List.takeWhile_append, List.takeWhile_cons_of_neg (by simp), List.append_nil]
  split
  · rename_i hlength
    exact ((List.takeWhile_prefix _).eq_of_length hlength).symm
  · rfl

theorem splitFirst?_append_cons {c : Char} {before after : Text} (h : c ∉ before) :
    splitFirst? c (before ++ c :: after) = some (before, after) := by
  have hb : ∀ x ∈ before, (x != c) = true := fun x hx => bne_iff_ne.2 fun he => h (he ▸ hx)
  have hc : (c != c) = false := bne_self_eq_false c
  simp only [splitFirst?, dropWhile_append_cons hb hc, takeWhile_append_cons hb hc]

theorem splitFirst?_eq_none_iff {c : Char} {s : Text} : splitFirst? c s = none ↔ c ∉ s := by
  constructor
  · intro h hc
    obtain ⟨before, after, rfl, hb⟩ := List.eq_append_cons_of_mem hc
    rw [splitFirst?_append_cons hb] at h
    contradiction
  · intro h
    have hs : s.dropWhile (· != c) = [] :=
      List.dropWhile_eq_nil_iff.2 fun x hx => bne_iff_ne.2 fun he => h (he ▸ hx)
    simp [splitFirst?, hs]

theorem splitLast?_append_cons {c : Char} {before after : Text} (h : c ∉ after) :
    splitLast? c (before ++ c :: after) = some (before, after) := by
  have hr : (before ++ c :: after).reverse = after.reverse ++ c :: before.reverse := by simp
  rw [splitLast?, hr, splitFirst?_append_cons (by simpa using h)]
  simp

theorem splitLast?_eq_none_iff {c : Char} {s : Text} : splitLast? c s = none ↔ c ∉ s := by
  rw [splitLast?, Option.map_eq_none_iff, splitFirst?_eq_none_iff, List.mem_reverse]

/-- a text with the character in it has a last one -/
theorem exists_last {c : Char} {s : Text} (h : c ∈ s) : ∃ before after, s = before ++ c :: after ∧ c ∉ after := by
  obtain ⟨a, b, hs, ha⟩ := List.eq_append_cons_of_mem (List.mem_reverse.2 h)
  refine ⟨b.reverse, a.reverse, ?_, by simpa using ha⟩
  have := congrArg List.reverse hs
  simpa using this

/-- two texts that are joined by a character can be told apart if the second one lacks it -/
theorem append_cons_inj {c : Char} {a b a' b' : Text} (hb : c ∉ b) (hb' : c ∉ b') :
    a ++ c :: b = a' ++ c :: b' ↔ a = a' ∧ b = b' := by
  constructor
  · intro h
    have hs := congrArg (splitLast? c) h
    rw [splitLast?_append_cons hb, splitLast?_append_cons hb'] at hs
    simpa using hs
  · rintro ⟨rfl, rfl⟩
    rfl

/-- two texts joined by a character that passes a test can be told apart if no character of the first one does -/
theorem first_inj {p : Char → Bool} {a b a' b' : Text} {c c' : Char} (ha : ∀ x ∈ a, p x = false) (hc : p c = true)
    (ha' : ∀ x ∈ a', p x = false) (hc' : p c' = true) (h : a ++ c :: b = a' ++ c' :: b') :
    a = a' ∧ c = c' ∧ b = b' := by
  have hstop : ∀ {a b : Text} {c : Char}, (∀ x ∈ a, p x = false) → p c = true →
      (a ++ c :: b).takeWhile (!p ·) = a := fun ha hc =>
    takeWhile_append_cons (fun x hx => by simp [ha x hx]) (by simp [hc])
  obtain rfl : a = a' := by rw [← hstop ha hc, h, hstop ha' hc']
  exact ⟨rfl, List.cons_eq_cons.1 (List.append_cancel_left h)⟩

/-- the same from the end, if no character of the second one passes the test -/
theorem last_inj {p : Char → Bool} {a b a' b' : Text} {c c' : Char} (hb : ∀ x ∈ b, p x = false) (hc : p c = true)
    (hb' : ∀ x ∈ b', p x = false) (hc' : p c' = true) (h : a ++ c :: b = a' ++ c' :: b') :
    a = a' ∧ c = c' ∧ b = b' := by
  have hreverse : b.reverse ++ c :: a.reverse = b'.reverse ++ c' :: a'.reverse := by
    simpa using congrArg List.reverse h
  obtain ⟨hlast, hjoin, hfirst⟩ := first_inj (by simpa using hb) hc (by simpa using hb') hc' hreverse
  exact ⟨List.reverse_inj.1 hfirst, hjoin, List.reverse_inj.1 hlast⟩

/-- a character that occurs only at the end -/
theorem eq_of_append_cons_eq_concat {c : Char} {a b s : Text} (h : a ++ c :: b = s ++ [c]) (hs : c ∉ s) : a = s := by
  have hcount := congrArg (List.count c) h
  simp only [List.count_append, List.count_cons_self, List.count_nil, List.count_eq_zero_of_not_mem hs] at hcount
  have hb : c ∉ b := List.count_eq_zero.1 (by omega)
  exact ((append_cons_inj hb List.not_mem_nil).1 h).1

/-- a character of two texts stands in one of them -/
theorem append_eq_append_cons {a b x y : Text} {c : Char} (h : a ++ b = x ++ c :: y) :
    (∃ z, a = x ++ c :: z ∧ y = z ++ b) ∨ ∃ z, x = a ++ z ∧ b = z ++ c :: y := by
  rcases List.append_eq_append_iff.1 h with ⟨z, rfl, hb⟩ | ⟨z, ha, hz⟩
  · exact Or.inr ⟨z, rfl, hb⟩
  · cases z with
    | nil => exact Or.inr ⟨[], by rw [ha, List.append_nil, List.append_nil], hz.symm⟩
    | cons d z =>
      obtain ⟨rfl, rfl⟩ := List.cons_eq_cons.1 hz
      exact Or.inl ⟨z, ha, rfl⟩

/-- what starts a text starts the part of it before a character that it does not have -/
theorem isPrefix_of_isPrefix_append_cons {needle a b : Text} {c : Char} (h : needle <+: a ++ c :: b) (hc : c ∉ needle) :
    needle <+: a := by
  have hstart : a ++ [c] <+: a ++ c :: b := ⟨b, by simp⟩
  rcases List.prefix_or_prefix_of_prefix h hstart with hneedle | hneedle
  · rcases List.prefix_concat_iff.1 hneedle with rfl | hneedle
    · exact absurd (by simp) hc
    · exact hneedle
  · exact absurd (hneedle.subset (by simp)) hc

/-! ## Pieces -/

/-- a text that is put together holds the characters of its pieces and of what stands between them -/
theorem forall_mem_intercalate {p : Char → Prop} {separator : Text} (hs : ∀ c ∈ separator, p c) {pieces : List Text}
    (h : ∀ piece ∈ pieces, ∀ c ∈ piece, p c) : ∀ c ∈ List.intercalate separator pieces, p c := by
  induction pieces with
  | nil => exact List.forall_mem_nil _
  | cons piece pieces ih =>
    obtain ⟨hfirst, hothers⟩ := List.forall_mem_cons.1 h
    intro c hc
    cases pieces with
    | nil => exact hfirst c (by simpa using hc)
    | cons next pieces =>
      rw [List.intercalate_cons_cons, List.append_assoc] at hc
      rcases List.mem_append.1 hc with hc | hc
      · exact hfirst c hc
      · rcases List.mem_append.1 hc with hc | hc
        · exact hs c hc
        · exact ih hothers c hc

theorem foldr_consFirst (a piece : Text) (pieces : List Text) :
    a.foldr consFirst (piece :: pieces) = (a ++ piece) :: pieces := by
  induction a with
  | nil => rfl
  | cons c a ih =>
    rw [List.foldr_cons, ih]
    rfl

theorem flatten_consFirst (c : Char) (pieces : List Text) : (consFirst c pieces).flatten = c :: pieces.flatten := by
  cases pieces <;> rfl

/-- what is read off pieces one by one is read off the text that they make up -/
theorem flatMap_sublist_flatten {f : Text → Text} {pieces : List Text} (h : ∀ piece ∈ pieces, (f piece).Sublist piece) :
    (pieces.flatMap f).Sublist pieces.flatten := by
  induction pieces with
  | nil => exact List.Sublist.refl _
  | cons piece pieces ih =>
    obtain ⟨hfirst, hothers⟩ := List.forall_mem_cons.1 h
    exact hfirst.append (ih hothers)

theorem length_flatMap_le {α : Type} {f : Text → List α} {pieces : List Text}
    (h : ∀ piece ∈ pieces, (f piece).length ≤ piece.length) : (pieces.flatMap f).length ≤ pieces.flatten.length := by
  induction pieces with
  | nil => exact Nat.le_refl _
  | cons piece pieces ih =>
    obtain ⟨hfirst, hothers⟩ := List.forall_mem_cons.1 h
    rw [List.flatMap_cons, List.flatten_cons, List.length_append, List.length_append]
    exact Nat.add_le_add hfirst (ih hothers)

/-! ## Bytes -/

theorem foldl_utf8Size (s : Text) (n : Nat) : s.foldl (fun n c => n + c.utf8Size) n = n + byteLength s := by
  induction s generalizing n with
  | nil => rfl
  | cons c s ih =>
    rw [byteLength, List.foldl_cons, List.foldl_cons, ih, ih]
    omega

theorem byteLength_append (a b : Text) : byteLength (a ++ b) = byteLength a + byteLength b := by
  rw [byteLength, List.foldl_append, foldl_utf8Size]
  rfl

theorem byteLength_cons (c : Char) (s : Text) : byteLength (c :: s) = c.utf8Size + byteLength s := by
  rw [byteLength, List.foldl_cons, foldl_utf8Size, Nat.zero_add]

/-- a byte offset that is the length of a text cuts behind it -/
theorem splitAtByte?_append (a b : Text) : splitAtByte? (a ++ b) (byteLength a) = some (a, b) := by
  induction a with
  | nil => cases b <;> rfl
  | cons c a ih =>
    obtain ⟨n, hn⟩ : ∃ n, c.utf8Size = n + 1 := Nat.exists_eq_succ_of_ne_zero (Nat.pos_iff_ne_zero.1 c.utf8Size_pos)
    have hlength : byteLength (c :: a) = n + byteLength a + 1 := by
      rw [byteLength_cons, hn]
      omega
    have hinside : ¬ n + byteLength a + 1 < n + 1 := by omega
    have hrest : n + byteLength a + 1 - (n + 1) = byteLength a := by omega
    rw [hlength, List.cons_append, splitAtByte?, hn, if_neg hinside, hrest, ih]
    rfl

/-! ## Trimming -/

/-- a run of blanks, which may be empty -/
abbrev Blanks := { s : Text // ∀ c ∈ s, isBlank c = true }

theorem isBlank_space : ∀ c ∈ [' '], isBlank c = true := by decide

def space : Blanks := ⟨[' '], isBlank_space⟩

theorem space_ne : space.1 ≠ [] := List.cons_ne_nil _ _

theorem isBlank_nothing : ∀ c ∈ ([] : Text), isBlank c = true := List.forall_mem_nil _

def nothing : Blanks := ⟨[], isBlank_nothing⟩

/-- starts with a character that is no blank -/
def StartsSolid (s : Text) : Prop := ∃ c rest, s = c :: rest ∧ isBlank c = false

/-- ends with a character that is no blank -/
def EndsSolid (s : Text) : Prop := ∃ rest c, s = rest ++ [c] ∧ isBlank c = false

theorem StartsSolid.append {a : Text} (h : StartsSolid a) (b : Text) : StartsSolid (a ++ b) := by
  obtain ⟨c, rest, rfl, hc⟩ := h
  exact ⟨c, rest ++ b, rfl, hc⟩

theorem EndsSolid.append {b : Text} (a : Text) (h : EndsSolid b) : EndsSolid (a ++ b) := by
  obtain ⟨rest, c, rfl, hc⟩ := h
  exact ⟨a ++ rest, c, by simp, hc⟩

theorem StartsSolid.ne_nil {a : Text} (h : StartsSolid a) : a ≠ [] := by
  obtain ⟨c, rest, rfl, -⟩ := h
  simp

/-- a text that is not empty and holds no blanks -/
theorem solid_of_forall {a : Text} (hne : a ≠ []) (h : ∀ c ∈ a, isBlank c = false) : StartsSolid a ∧ EndsSolid a := by
  constructor
  · obtain ⟨c, rest, rfl⟩ := List.exists_cons_of_ne_nil hne
    exact ⟨c, rest, rfl, h c (by simp)⟩
  · exact ⟨a.dropLast, a.getLast hne, (List.dropLast_concat_getLast hne).symm, h _ (List.getLast_mem hne)⟩

theorem trimStart_append {before a : Text} (hb : ∀ c ∈ before, isBlank c = true) (h : StartsSolid a) :
    trimStart (before ++ a) = a := by
  obtain ⟨c, rest, rfl, hc⟩ := h
  exact dropWhile_append_cons hb hc

theorem trimEnd_append {a after : Text} (h : EndsSolid a) (ha : ∀ c ∈ after, isBlank c = true) :
    trimEnd (a ++ after) = a := by
  obtain ⟨rest, c, rfl, hc⟩ := h
  have hr : (rest ++ [c] ++ after).reverse = after.reverse ++ c :: rest.reverse := by simp
  rw [trimEnd, hr, dropWhile_append_cons (by simpa using ha) hc]
  simp

/-- what ends with a character that is no blank is kept, whatever comes behind it -/
theorem trimEnd_append_left {a : Text} (h : EndsSolid a) (b : Text) : trimEnd (a ++ b) = a ++ trimEnd b := by
  obtain ⟨rest, c, rfl, hc⟩ := h
  have hsolid : (rest ++ [c]).reverse.dropWhile isBlank = (rest ++ [c]).reverse := by
    rw [List.reverse_append]
    exact List.dropWhile_cons_of_neg (by simp [hc])
  rw [trimEnd, trimEnd, List.reverse_append, List.dropWhile_append]
  split
  · rename_i hempty
    rw [List.isEmpty_iff.1 hempty, hsolid, List.reverse_reverse, List.reverse_nil, List.append_nil]
  · rw [List.reverse_append, List.reverse_reverse]

theorem trim_cons {c : Char} (hc : isBlank c = false) (rest : Text) : trim (c :: rest) = c :: trimEnd rest := by
  have hstart : trimStart (c :: rest) = [c] ++ rest := List.dropWhile_cons_of_neg (by simp [hc])
  have hend : EndsSolid [c] := ⟨[], c, rfl, hc⟩
  rw [trim, hstart, trimEnd_append_left hend, List.singleton_append]

/-- trimming removes the blanks around a text and nothing of it -/
theorem trim_append {before a after : Text} (hb : ∀ c ∈ before, isBlank c = true) (hs : StartsSolid a)
    (he : EndsSolid a) (ha : ∀ c ∈ after, isBlank c = true) : trim (before ++ a ++ after) = a := by
  rw [trim, List.append_assoc, trimStart_append hb (hs.append after), trimEnd_append he ha]

theorem trim_eq_self {a : Text} (hs : StartsSolid a) (he : EndsSolid a) : trim a = a := by
  have hnone : ∀ c ∈ ([] : Text), isBlank c = true := fun c hc => absurd hc List.not_mem_nil
  simpa using trim_append hnone hs he hnone

theorem trim_blanks (blanks : Blanks) : trim blanks.1 = [] := by
  have hstart : trimStart blanks.1 = [] := List.dropWhile_eq_nil_iff.2 blanks.2
  rw [trim, hstart]
  rfl

/-- what is trimmed off the end -/
theorem exists_trimEnd (s : Text) : ∃ after : Blanks, s = trimEnd s ++ after.1 := by
  refine ⟨⟨(s.reverse.takeWhile isBlank).reverse, fun c hc => ?_⟩, ?_⟩
  · exact List.mem_takeWhile_imp (List.mem_reverse.1 hc)
  · rw [trimEnd, ← List.reverse_append, List.takeWhile_append_dropWhile, List.reverse_reverse]

/-- a text is its trimmed form with blanks around it -/
theorem exists_trim (s : Text) : ∃ before after : Blanks, s = before.1 ++ trim s ++ after.1 := by
  obtain ⟨after, hafter⟩ := exists_trimEnd (trimStart s)
  refine ⟨⟨s.takeWhile isBlank, fun c hc => List.mem_takeWhile_imp hc⟩, after, ?_⟩
  calc s = s.takeWhile isBlank ++ trimStart s := List.takeWhile_append_dropWhile.symm
    _ = s.takeWhile isBlank ++ (trim s ++ after.1) := congrArg _ hafter
    _ = s.takeWhile isBlank ++ trim s ++ after.1 := (List.append_assoc _ _ _).symm

theorem trim_sublist (s : Text) : (trim s).Sublist s := by
  obtain ⟨before, after, hs⟩ := exists_trim s
  have hinside : (trim s).Sublist (before.1 ++ trim s ++ after.1) :=
    (List.sublist_append_right _ _).trans (List.sublist_append_left _ _)
  rwa [← hs] at hinside

theorem startsSolid_trimStart {s : Text} (h : trimStart s ≠ []) : StartsSolid (trimStart s) := by
  obtain ⟨c, rest, hs⟩ := List.exists_cons_of_ne_nil h
  have hhead := List.head?_dropWhile_not isBlank s
  rw [show s.dropWhile isBlank = c :: rest from hs] at hhead
  exact ⟨c, rest, hs, by simpa using hhead⟩

theorem endsSolid_trimEnd {s : Text} (h : trimEnd s ≠ []) : EndsSolid (trimEnd s) := by
  have hreverse : trimEnd s = (trimStart s.reverse).reverse := rfl
  obtain ⟨c, rest, hs, hc⟩ := startsSolid_trimStart fun he => h (by rw [hreverse, he]; rfl)
  exact ⟨rest.reverse, c, by rw [hreverse, hs, List.reverse_cons], hc⟩

/-- a trimmed text that is not empty neither starts nor ends with a blank -/
theorem solid_trim {s : Text} (h : trim s ≠ []) : StartsSolid (trim s) ∧ EndsSolid (trim s) := by
  refine ⟨?_, endsSolid_trimEnd h⟩
  obtain ⟨after, hafter⟩ := exists_trimEnd (trimStart s)
  obtain ⟨c, rest, ht⟩ := List.exists_cons_of_ne_nil h
  have hs : trimStart s = c :: (rest ++ after.1) := by rw [hafter, ← trim, ht, List.cons_append]
  obtain ⟨d, rest', hs', hd⟩ := startsSolid_trimStart (s := s) (by simp [hs])
  obtain ⟨rfl, -⟩ := List.cons_eq_cons.1 (hs.symm.trans hs')
  exact ⟨c, rest, ht, hd⟩

theorem trimStart_trim (s : Text) : trimStart (trim s) = trim s := by
  by_cases h : trim s = []
  · rw [h]
    rfl
  · exact trimStart_append (List.forall_mem_nil _) (solid_trim h).1

theorem trim_trim (s : Text) : trim (trim s) = trim s := by
  by_cases h : trim s = []
  · rw [h]
    rfl
  · exact trim_eq_self (solid_trim h).1 (solid_trim h).2

theorem trim_concat (s : Text) {c : Char} (hc : isBlank c = true) : trim (s ++ [c]) = trim s := by
  have hstart : trimStart (s ++ [c]) = if (trimStart s).isEmpty then [] else trimStart s ++ [c] := by
    simp [trimStart, List.dropWhile_append, hc]
  unfold trim
  rw [hstart]
  split
  · rename_i hempty
    rw [List.isEmpty_iff.1 hempty]
  · simp [trimEnd, hc]

/-! ## Text without its blanks -/

/-- the characters that are no blanks -/
def withoutBlanks (s : Text) : Text := s.filter fun c => !isBlank c

theorem withoutBlanks_append (a b : Text) : withoutBlanks (a ++ b) = withoutBlanks a ++ withoutBlanks b :=
  List.filter_append a b

theorem withoutBlanks_blanks (blanks : Blanks) : withoutBlanks blanks.1 = [] := by
  refine List.filter_eq_nil_iff.2 fun c hc => ?_
  simp [blanks.2 c hc]

theorem withoutBlanks_trim (s : Text) : withoutBlanks (trim s) = withoutBlanks s := by
  obtain ⟨before, after, hs⟩ := exists_trim s
  calc withoutBlanks (trim s)
      = withoutBlanks before.1 ++ withoutBlanks (trim s) ++ withoutBlanks after.1 := by simp [withoutBlanks_blanks]
    _ = withoutBlanks (before.1 ++ trim s ++ after.1) := by simp only [withoutBlanks_append]
    _ = withoutBlanks s := by rw [← hs]

end ClassAtlas.Text
