/-
Text as a list of characters.

Every part of the library reads text from left to right, so text is a `List Char`. Byte offsets into the UTF-8 form
are a view of it: `byteLength` measures a text, and `splitAtByte?` cuts one at an offset that falls between two
characters. Blank characters are those of the Unicode property White_Space, all 25 of them.

A string literal may stand where a text is expected.
-/

namespace ClassAtlas

/-- text, read as a list of characters -/
abbrev Text := List Char

instance : Coe String Text := ⟨String.toList⟩

instance : Hashable Text := ⟨fun s => s.foldl (fun h c => mixHash h c.val.toUInt64) 7⟩

namespace Text

/-! ## Characters by range -/

/-- does the character's code point lie in one of the ranges, ends included? -/
def inRanges (ranges : List (Nat × Nat)) (c : Char) : Bool :=
  ranges.any fun r => r.1 ≤ c.toNat && c.toNat ≤ r.2

/-- the code points of the property White_Space -/
def blankRanges : List (Nat × Nat) :=
  [(0x09, 0x0D), (0x20, 0x20), (0x85, 0x85), (0xA0, 0xA0), (0x1680, 0x1680), (0x2000, 0x200A), (0x2028, 0x2029),
   (0x202F, 0x202F), (0x205F, 0x205F), (0x3000, 0x3000)]

/-- white space -/
def isBlank (c : Char) : Bool := inRanges blankRanges c

/-! ## Trimming -/

/-- the text without the blanks it starts with -/
def trimStart (s : Text) : Text := s.dropWhile isBlank

/-- the text without the blanks it ends with -/
def trimEnd (s : Text) : Text := (s.reverse.dropWhile isBlank).reverse

/-- the text without the blanks at both ends -/
def trim (s : Text) : Text := trimEnd (trimStart s)

theorem length_trimStart_le (s : Text) : (trimStart s).length ≤ s.length :=
  (List.dropWhile_suffix isBlank).length_le

theorem length_trimEnd_le (s : Text) : (trimEnd s).length ≤ s.length := by
  simpa [trimEnd] using (List.dropWhile_suffix isBlank (l := s.reverse)).length_le

theorem length_trim_le (s : Text) : (trim s).length ≤ s.length :=
  Nat.le_trans (length_trimEnd_le _) (length_trimStart_le s)

/-! ## Cutting at a character -/

/-- what stands before and after the first occurrence of `c` -/
def splitFirst? (c : Char) (s : Text) : Option (Text × Text) :=
  match s.dropWhile (· != c) with
  | [] => none
  | _ :: after => some (s.takeWhile (· != c), after)

/-- what stands before and after the last occurrence of `c` -/
def splitLast? (c : Char) (s : Text) : Option (Text × Text) :=
  (splitFirst? c s.reverse).map fun p => (p.2.reverse, p.1.reverse)

theorem splitFirst?_eq_some {c : Char} {s before after : Text} (h : splitFirst? c s = some (before, after)) :
    s = before ++ c :: after := by
  unfold splitFirst? at h
  split at h
  · contradiction
  · rename_i d rest hd
    have hc : d = c := by
      have := List.head?_dropWhile_not (· != c) s
      rw [hd] at this
      simpa using this
    obtain ⟨rfl, rfl⟩ := by simpa using h
    have := List.takeWhile_append_dropWhile (p := (· != c)) (l := s)
    rw [hd, hc] at this
    exact this.symm

theorem splitLast?_eq_some {c : Char} {s before after : Text} (h : splitLast? c s = some (before, after)) :
    s = before ++ c :: after := by
  obtain ⟨⟨a, b⟩, hp, he⟩ := Option.map_eq_some_iff.1 h
  have hs := splitFirst?_eq_some hp
  obtain ⟨rfl, rfl⟩ := by simpa using he
  have := congrArg List.reverse hs
  simpa using this

/-! ## Bytes -/

/-- the number of bytes of the UTF-8 form -/
def byteLength (s : Text) : Nat := s.foldl (fun n c => n + c.utf8Size) 0

/-- the two sides of a byte offset; `none` past the end or inside a character -/
def splitAtByte? : Text → Nat → Option (Text × Text)
  | s, 0 => some ([], s)
  | [], _ + 1 => none
  | c :: s, n + 1 =>
    if n + 1 < c.utf8Size then none
    else (splitAtByte? s (n + 1 - c.utf8Size)).map fun p => (c :: p.1, p.2)
termination_by structural s => s

/-! ## Lines -/

/-- puts a character at the front of the first piece -/
def consFirst (c : Char) : List Text → List Text
  | [] => [[c]]
  | piece :: pieces => (c :: piece) :: pieces

/-- one character before the lines of a text; the flag tells whether the text starts with a line feed -/
def lineStep (c : Char) (acc : List Text × Bool) : List Text × Bool :=
  if c = '\n' then ([] :: acc.1, true)
  else if c = '\r' ∧ acc.2 = true then (acc.1, false)
  else (consFirst c acc.1, false)

/-- the lines of a text: each ends at a line feed, or at the end of the text if it is not empty there. A carriage
return right before the line feed belongs to the line's end. -/
def lines (s : Text) : List Text := (s.foldr lineStep ([], false)).1

/-- every line with a line feed after it -/
def unlines (ls : List Text) : Text := ls.flatMap (· ++ ['\n'])

/-! ## Letters -/

/-- equality up to the case of ASCII letters -/
def sameIgnoringCase (a b : Text) : Bool := a.map Char.toLower == b.map Char.toLower

/-- a natural number in decimal digits -/
def ofNat (n : Nat) : Text := Nat.toDigits 10 n

end Text

end ClassAtlas
