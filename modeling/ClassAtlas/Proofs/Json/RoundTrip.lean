/-
Reading JSON gives back what was written.

A reader that meets the text of a value takes exactly that text, whatever comes after it (`ReadsBack`); only a number
must not be followed by a character with which it could go on. Strings are read back character by character, arrays and
objects element by element, by induction on the value. The two layouts differ in blanks alone, which every reader passes
over. Decimals are kept as they are spelled, so they are left out here (`IsExact`): no report holds one.
-/
import ClassAtlas.Json.Printer
import ClassAtlas.Json.Reader
import ClassAtlas.Proofs.Name

namespace ClassAtlas.Json

open Pattern (Stops stops_cons)

/-! ## Strings -/

theorem hexValue?_hexDigit : ∀ {n : Nat}, n < 16 → hexValue? (hexDigit n) = some n := by
  decide

/-- the escape of a control character -/
theorem hexUnit?_hexDigit {n : Nat} (h : n < 0x20) :
    hexUnit? '0' '0' (hexDigit (n / 16)) (hexDigit (n % 16)) = some n := by
  have hzero : hexValue? '0' = some 0 := by decide
  have hhigh : hexValue? (hexDigit (n / 16)) = some (n / 16) := hexValue?_hexDigit (by omega)
  have hlow : hexValue? (hexDigit (n % 16)) = some (n % 16) := hexValue?_hexDigit (by omega)
  have hsum : ((0 * 16 + 0) * 16 + n / 16) * 16 + n % 16 = n := by omega
  simp only [hexUnit?, hzero, hhigh, hlow, Option.bind_eq_bind, Option.bind_some, hsum]
  rfl

theorem readChars_simple {e c : Char} (h : simpleEscape? e = some c) (s : Text) :
    readChars ('\\' :: e :: s) = (readChars s).map fun p => (c :: p.1, p.2) := by
  have hu : e ≠ 'u' := by
    rintro rfl
    simp [simpleEscape?] at h
  rw [readChars]
  · simp only [h]
    cases readChars s with
    | none => rfl
    | some p => rfl
  · intro a b c d rest he
    exact absurd he hu

theorem readChars_unit {a b c d : Char} {n : Nat} (h : hexUnit? a b c d = some n) (hn : n < 0x20) (s : Text) :
    readChars ('\\' :: 'u' :: a :: b :: c :: d :: s) = (readChars s).map fun p => (Char.ofNat n :: p.1, p.2) := by
  have htrailing : isTrailing n = false := by
    simp [isTrailing]; omega
  have hleading : isLeading n = false := by
    simp [isLeading]; omega
  rw [readChars]
  simp only [h, Option.bind_eq_bind, Option.bind_some, htrailing, hleading]
  cases readChars s with
  | none => rfl
  | some p => rfl

theorem readChars_plain {c : Char} (hq : c ≠ '"') (hb : c ≠ '\\') (hc : ¬ c.toNat < 0x20) (s : Text) :
    readChars (c :: s) = (readChars s).map fun p => (c :: p.1, p.2) := by
  rw [readChars]
  · rw [if_neg (by tauto)]
    cases readChars s with
    | none => rfl
    | some p => rfl
  · exact hq
  · intro a b c d rest he
    exact absurd he hb
  · intro e rest he
    exact absurd he hb

/-- a character is read back from what is written for it -/
theorem readChars_escapeChar (c : Char) (s : Text) :
    readChars (escapeChar c ++ s) = (readChars s).map fun p => (c :: p.1, p.2) := by
  unfold escapeChar
  split_ifs with hquote hback hfeed hreturn htab hback hform hcontrol
  · exact readChars_simple (by simp [simpleEscape?, hquote]) s
  · exact readChars_simple (by simp [simpleEscape?, hback]) s
  · exact readChars_simple (by simp [simpleEscape?, hfeed]) s
  · exact readChars_simple (by simp [simpleEscape?, hreturn]) s
  · exact readChars_simple (by simp [simpleEscape?, htab]) s
  · refine readChars_simple (e := 'b') ?_ s
    have : Char.ofNat c.toNat = c := Char.ofNat_toNat c
    rw [← this, hback]
    rfl
  · refine readChars_simple (e := 'f') ?_ s
    have : Char.ofNat c.toNat = c := Char.ofNat_toNat c
    rw [← this, hform]
    rfl
  · have := readChars_unit (hexUnit?_hexDigit hcontrol) hcontrol s
    rwa [Char.ofNat_toNat] at this
  · exact readChars_plain hquote ‹_› hcontrol s

theorem readChars_quoted (s rest : Text) : readChars (s.flatMap escapeChar ++ '"' :: rest) = some (s, rest) := by
  induction s with
  | nil => rw [List.flatMap_nil, List.nil_append, readChars]
  | cons c s ih => rw [List.flatMap_cons, List.append_assoc, readChars_escapeChar, ih, Option.map_some]

/-! ## Numbers -/

/-- a character with which a number may go on -/
def isNumberChar (c : Char) : Bool := c.isDigit || c == '.' || c == 'e' || c == 'E'

theorem isDigit_of_mem_ofNat {n : Nat} {c : Char} (h : c ∈ Text.ofNat n) : c.isDigit = true :=
  Nat.isDigit_of_mem_toDigits (by decide) (by decide) h

/-- only 0 is written with a 0 in front -/
theorem head_ofNat {n : Nat} (h : (Text.ofNat n).head? = some '0') : n = 0 := by
  unfold Text.ofNat at h
  induction n using Nat.strongRecOn with
  | ind n ih =>
    by_cases hn : n < 10
    · rw [Nat.toDigits_of_lt_base hn] at h
      simpa using h
    · have hle : 10 ≤ n := Nat.le_of_not_lt hn
      rw [Nat.toDigits_of_base_le (by decide) hle, List.head?_append, Option.or_eq_left_of_isSome] at h
      · have := ih (n / 10) (by omega) h
        omega
      · exact List.isSome_head?.2 Nat.toDigits_ne_nil

theorem readDigits_ofNat (n : Nat) {rest : Text} (h : Stops isNumberChar rest) :
    readDigits (Text.ofNat n ++ rest) = some (Text.ofNat n, rest) := by
  have hdigits : ∀ c ∈ Text.ofNat n, c.isDigit = true := fun c hc => isDigit_of_mem_ofNat hc
  have hne : (Text.ofNat n).isEmpty = false := by simp [Text.ofNat]
  have hstop : Stops Char.isDigit rest := by
    intro c hc
    have hnumber := h c hc
    simp only [isNumberChar, Bool.or_eq_false_iff] at hnumber
    exact hnumber.1.1.1
  have htake : (Text.ofNat n ++ rest).takeWhile Char.isDigit = Text.ofNat n := by
    rw [List.takeWhile_append_of_pos hdigits, hstop.takeWhile, List.append_nil]
  have hdrop : (Text.ofNat n ++ rest).dropWhile Char.isDigit = rest := by
    rw [List.dropWhile_append_of_pos hdigits, hstop.dropWhile]
  simp [readDigits, htake, hdrop, hne]

/-- neither a fraction nor an exponent follows -/
theorem readParts_stops {rest : Text} (h : Stops isNumberChar rest) :
    readFraction rest = some ([], rest) ∧ readExponent rest = some ([], rest) := by
  cases rest with
  | nil => exact ⟨rfl, rfl⟩
  | cons c rest =>
    have hc := h c rfl
    have hpoint : c ≠ '.' := by
      rintro rfl
      exact absurd hc (by decide)
    have hmark : ¬ (c = 'e' ∨ c = 'E') := by
      rintro (rfl | rfl) <;> exact absurd hc (by decide)
    constructor
    · rw [readFraction]
      intro rest' he
      exact hpoint (List.head_eq_of_cons_eq he)
    · exact if_neg hmark

theorem exists_digit_ofNat (n : Nat) : ∃ c s, Text.ofNat n = c :: s ∧ c.isDigit = true := by
  obtain ⟨c, s, hs⟩ := List.exists_cons_of_ne_nil (Nat.toDigits_ne_nil (n := n) (b := 10))
  refine ⟨c, s, hs, isDigit_of_mem_ofNat (n := n) ?_⟩
  rw [Text.ofNat, hs]
  exact List.mem_cons_self

theorem not_leading_zero (n : Nat) : ¬ ((Text.ofNat n).length > 1 ∧ (Text.ofNat n).head? = some '0') := by
  rintro ⟨hlength, hhead⟩
  obtain rfl := head_ofNat hhead
  simp [Text.ofNat] at hlength

theorem digitsValue_ofNat (n : Nat) : digitsValue (Text.ofNat n) = n := Nat.ofDigitChars_ten_toDigits

theorem readSign_ofNat (n : Nat) (rest : Text) : readSign (Text.ofNat n ++ rest) = (false, Text.ofNat n ++ rest) := by
  obtain ⟨c, s, hs, hc⟩ := exists_digit_ofNat n
  rw [hs, List.cons_append, readSign]
  rintro rest' he
  obtain rfl := List.head_eq_of_cons_eq he
  exact absurd hc (by decide)

theorem readNumber_ofInteger (n : Int) {rest : Text} (h : Stops isNumberChar rest) :
    readNumber (ofInteger n ++ rest) = some (integer n, rest) := by
  obtain ⟨hfraction, hexponent⟩ := readParts_stops h
  cases n with
  | ofNat n =>
    simp [readNumber, ofInteger, readSign_ofNat, readDigits_ofNat n h, not_leading_zero, hfraction, hexponent,
      digitsValue_ofNat]
  | negSucc n =>
    simp [readNumber, ofInteger, readSign, readDigits_ofNat (n + 1) h, not_leading_zero, hfraction, hexponent,
      digitsValue_ofNat, Int.negSucc_eq]

/-! ## Blanks -/

theorem skipSpace_append {b : Text} (hb : ∀ c ∈ b, isSpace c = true) (s : Text) : skipSpace (b ++ s) = skipSpace s :=
  List.dropWhile_append_of_pos hb

theorem skipSpace_cons {c : Char} (hc : isSpace c = false) (s : Text) : skipSpace (c :: s) = c :: s :=
  List.dropWhile_cons_of_neg (by simp [hc])

theorem isSpace_of_mem_newline {layout : Layout} {level : Nat} {c : Char} (h : c ∈ layout.newline level) :
    isSpace c = true := by
  cases layout with
  | flat => contradiction
  | indented =>
    rcases List.mem_cons.1 h with rfl | hc
    · decide
    · rw [List.eq_of_mem_replicate hc]
      decide

theorem readValue_append {b : Text} (hb : ∀ c ∈ b, isSpace c = true) (fuel : Nat) (s : Text) :
    readValue fuel (b ++ s) = readValue fuel s := by
  cases fuel with
  | zero => rw [readValue, readValue]
  | succ fuel => rw [readValue, readValue, skipSpace_append hb]

theorem readItems_append {b : Text} (hb : ∀ c ∈ b, isSpace c = true) (fuel : Nat) (s : Text) :
    readItems fuel (b ++ s) = readItems fuel s := by
  cases fuel with
  | zero => rw [readItems, readItems]
  | succ fuel => rw [readItems, readItems, readValue_append hb]

theorem readFields_append {b : Text} (hb : ∀ c ∈ b, isSpace c = true) (fuel : Nat) (s : Text) :
    readFields fuel (b ++ s) = readFields fuel s := by
  cases fuel with
  | zero => rw [readFields, readFields]
  | succ fuel => rw [readFields, readFields, skipSpace_append hb]

/-! ## Values -/

/-- no part of the value is a decimal -/
inductive IsExact : Json → Prop where
  | null : IsExact null
  | bool (b : Bool) : IsExact (bool b)
  | integer (n : Int) : IsExact (integer n)
  | text (s : Text) : IsExact (text s)
  | array {items : List Json} (h : ∀ v ∈ items, IsExact v) : IsExact (array items)
  | object {fields : List (Text × Json)} (h : ∀ f ∈ fields, IsExact f.2) : IsExact (object fields)

attribute [simp] IsExact.null IsExact.bool IsExact.integer IsExact.text

@[simp] theorem isExact_array {items : List Json} : IsExact (array items) ↔ ∀ v ∈ items, IsExact v := by
  constructor
  · rintro (_ | _ | _ | _ | h | _)
    exact h
  · exact .array

@[simp] theorem isExact_object {fields : List (Text × Json)} :
    IsExact (object fields) ↔ ∀ f ∈ fields, IsExact f.2 := by
  constructor
  · rintro (_ | _ | _ | _ | _ | h)
    exact h
  · exact .object

@[simp] theorem isExact_natural (n : Nat) : IsExact (natural n) := .integer n

@[simp] theorem isExact_texts (ss : List Text) : IsExact (texts ss) := by
  simp [texts]

/-- a reader with enough fuel takes exactly this text for the value -/
def ReadsBack (written : Text) (v : Json) : Prop :=
  ∀ (fuel : Nat) (rest : Text), 2 * written.length ≤ fuel → Stops isNumberChar rest →
    readValue fuel (written ++ rest) = some (v, rest)

theorem renderItems_eq (layout : Layout) (level : Nat) (items : List Json) :
    renderItems layout level items = items.map (renderAt layout level) := by
  induction items with
  | nil => rfl
  | cons v items ih => rw [renderItems, ih, List.map_cons]

/-- a field as text -/
def renderField (layout : Layout) (level : Nat) (f : Text × Json) : Text :=
  quote f.1 ++ layout.colon ++ renderAt layout level f.2

theorem renderFields_eq (layout : Layout) (level : Nat) (fields : List (Text × Json)) :
    renderFields layout level fields = fields.map (renderField layout level) := by
  induction fields with
  | nil => rfl
  | cons f fields ih => rw [renderFields, ih, List.map_cons, renderField]

/-- an integer starts with its sign or a digit -/
theorem exists_sign (n : Int) :
    ∃ c s, ofInteger n = c :: s ∧ ∀ d : Char, d ≠ '-' → d.isDigit = false → c ≠ d := by
  cases n with
  | ofNat n =>
    obtain ⟨c, s, hs, hc⟩ := exists_digit_ofNat n
    refine ⟨c, s, hs, ?_⟩
    rintro d - hd rfl
    rw [hc] at hd
    contradiction
  | negSucc n => exact ⟨'-', _, rfl, fun d hd _ => hd.symm⟩

theorem isSpace_eq_false {c : Char} (h : ∀ d : Char, d ≠ '-' → d.isDigit = false → c ≠ d) : isSpace c = false := by
  simp [isSpace, h]

theorem exists_opening (layout : Layout) (level : Nat) (opening closing : Char) (parts : List Text) :
    ∃ s, layout.enclose level opening closing parts = opening :: s := by
  cases parts with
  | nil => exact ⟨_, rfl⟩
  | cons part parts => exact ⟨_, rfl⟩

/-- a written value starts with a character that neither is a blank nor closes an array -/
theorem exists_first {v : Json} (h : IsExact v) (layout : Layout) (level : Nat) :
    ∃ c s, renderAt layout level v = c :: s ∧ isSpace c = false ∧ c ≠ ']' := by
  cases h with
  | null => exact ⟨'n', _, rfl, by decide⟩
  | bool b =>
    cases b with
    | false => exact ⟨'f', _, rfl, by decide⟩
    | true => exact ⟨'t', _, rfl, by decide⟩
  | integer n =>
    obtain ⟨c, s, hs, hc⟩ := exists_sign n
    exact ⟨c, s, hs, isSpace_eq_false hc, hc ']' (by decide) (by decide)⟩
  | text s => exact ⟨'"', _, rfl, by decide⟩
  | array h =>
    obtain ⟨s, hs⟩ := exists_opening layout level '[' ']' _
    exact ⟨'[', s, hs, by decide⟩
  | object h =>
    obtain ⟨s, hs⟩ := exists_opening layout level '{' '}' _
    exact ⟨'{', s, hs, by decide⟩

/-- a number ends before blanks and before any character that is not part of one -/
theorem stops_blanks {b : Text} (hb : ∀ c ∈ b, isSpace c = true) {c : Char} (hc : isNumberChar c = false) (s : Text) :
    Stops isNumberChar (b ++ c :: s) := by
  cases b with
  | nil => exact stops_cons hc s
  | cons d b =>
    have hd := hb d List.mem_cons_self
    simp only [isSpace, Bool.or_eq_true, beq_iff_eq] at hd
    rcases hd with ((rfl | rfl) | rfl) | rfl <;> exact stops_cons (by decide) _

/-! ## Elements

Items and fields are read alike: an element, then a comma and the elements after it, or the closing bracket. -/

/-- a reader of elements that takes each of them for what it is, and blanks for nothing -/
structure ReadsElements {α : Type} (read : Nat → Text → Option (List α × Text)) (write : α → Text) (closing : Char)
    (elements : List α) : Prop where
  blanks : ∀ fuel {b : Text} (s : Text), (∀ c ∈ b, isSpace c = true) → read fuel (b ++ s) = read fuel s
  last : ∀ a ∈ elements, ∀ fuel {b : Text} (rest : Text), 2 * (write a).length ≤ fuel → (∀ c ∈ b, isSpace c = true) →
    read (fuel + 1) (write a ++ (b ++ closing :: rest)) = some ([a], rest)
  more : ∀ a ∈ elements, ∀ fuel (rest : Text), 2 * (write a).length ≤ fuel →
    read (fuel + 1) (write a ++ ',' :: rest) = (read fuel rest).map fun p => (a :: p.1, p.2)

theorem ReadsElements.tail {α : Type} {read : Nat → Text → Option (List α × Text)} {write : α → Text} {closing : Char}
    {a : α} {elements : List α} (h : ReadsElements read write closing (a :: elements)) :
    ReadsElements read write closing elements where
  blanks := h.blanks
  last b hb := h.last b (List.mem_cons_of_mem a hb)
  more b hb := h.more b (List.mem_cons_of_mem a hb)

theorem ReadsElements.joined {α : Type} {read : Nat → Text → Option (List α × Text)} {write : α → Text} {closing : Char}
    {elements : List α} (h : ReadsElements read write closing elements) (hne : elements ≠ []) {between b : Text}
    (hbetween : ∀ c ∈ between, isSpace c = true) (hb : ∀ c ∈ b, isSpace c = true) (fuel : Nat) (rest : Text)
    (hfuel : 2 * (List.intercalate (',' :: between) (elements.map write)).length < fuel) :
    read fuel (List.intercalate (',' :: between) (elements.map write) ++ (b ++ closing :: rest)) =
      some (elements, rest) := by
  induction elements generalizing fuel with
  | nil => contradiction
  | cons a elements ih =>
    obtain ⟨fuel, rfl⟩ := Nat.exists_eq_add_one_of_ne_zero (Nat.ne_zero_of_lt hfuel)
    cases elements with
    | nil =>
      rw [List.map_singleton, List.intercalate_singleton] at hfuel ⊢
      exact h.last a List.mem_cons_self fuel rest (by omega) hb
    | cons a' elements =>
      rw [List.map_cons, List.map_cons, List.intercalate_cons_cons] at hfuel ⊢
      simp only [List.length_append, List.length_cons] at hfuel
      have htail := ih h.tail (by simp) fuel (by rw [List.map_cons]; omega)
      rw [List.append_assoc, List.append_assoc, List.cons_append, h.more a List.mem_cons_self fuel _ (by omega),
        h.blanks fuel _ hbetween, ← List.map_cons, htail, Option.map_some]

theorem readsElements_items {layout : Layout} {level : Nat} {items : List Json}
    (h : ∀ v ∈ items, ReadsBack (renderAt layout level v) v) :
    ReadsElements readItems (renderAt layout level) ']' items where
  blanks fuel {_} s hb := readItems_append hb fuel s
  last v hv fuel b rest hfuel hb := by
    have hread := h v hv fuel (b ++ ']' :: rest) hfuel (stops_blanks hb (by decide) rest)
    simp [readItems, hread, skipSpace_append hb, skipSpace_cons (c := ']') (by decide)]
  more v hv fuel rest hfuel := by
    have hread := h v hv fuel (',' :: rest) hfuel (stops_cons (by decide) rest)
    simp [readItems, hread, skipSpace_cons (c := ',') (by decide)]

/-- a written field: the name between quotation marks, a colon, blanks and the value -/
theorem exists_renderField (layout : Layout) (level : Nat) (f : Text × Json) :
    ∃ b : Text, (∀ c ∈ b, isSpace c = true) ∧ ∀ rest : Text, renderField layout level f ++ rest =
      '"' :: (f.1.flatMap escapeChar ++ '"' :: ':' :: (b ++ (renderAt layout level f.2 ++ rest))) := by
  cases layout with
  | flat => exact ⟨[], by simp, fun rest => by simp [renderField, quote, Layout.colon]⟩
  | indented => exact ⟨[' '], by decide, fun rest => by simp [renderField, quote, Layout.colon]⟩

theorem length_le_renderField (layout : Layout) (level : Nat) (f : Text × Json) :
    (renderAt layout level f.2).length ≤ (renderField layout level f).length := by
  rw [renderField, List.length_append]
  omega

theorem readsElements_fields {layout : Layout} {level : Nat} {fields : List (Text × Json)}
    (h : ∀ f ∈ fields, ReadsBack (renderAt layout level f.2) f.2) :
    ReadsElements readFields (renderField layout level) '}' fields where
  blanks fuel {_} s hb := readFields_append hb fuel s
  last f hf fuel b rest hfuel hb := by
    have hlength := length_le_renderField layout level f
    have hread := h f hf fuel (b ++ '}' :: rest) (by omega) (stops_blanks hb (by decide) rest)
    obtain ⟨b', hb', htext⟩ := exists_renderField layout level f
    simp [htext, readFields, skipSpace_cons (c := '"') (by decide), readChars_quoted,
      skipSpace_cons (c := ':') (by decide), readValue_append hb', hread, skipSpace_append hb,
      skipSpace_cons (c := '}') (by decide)]
  more f hf fuel rest hfuel := by
    have hlength := length_le_renderField layout level f
    have hread := h f hf fuel (',' :: rest) (by omega) (stops_cons (by decide) rest)
    obtain ⟨b', hb', htext⟩ := exists_renderField layout level f
    simp [htext, readFields, skipSpace_cons (c := '"') (by decide), readChars_quoted,
      skipSpace_cons (c := ':') (by decide), readValue_append hb', hread, skipSpace_cons (c := ',') (by decide)]

/-! ## Whole values -/

theorem readValue_scalar {c : Char} (hc : isSpace c = false) (hquote : c ≠ '"') (harray : c ≠ '[') (hobject : c ≠ '{')
    (fuel : Nat) (s : Text) : readValue (fuel + 1) (c :: s) = readScalar (c :: s) := by
  rw [readValue, skipSpace_cons hc]
  split
  · rename_i rest he
    exact absurd (List.head_eq_of_cons_eq he) hquote
  · rename_i rest he
    exact absurd (List.head_eq_of_cons_eq he) harray
  · rename_i rest he
    exact absurd (List.head_eq_of_cons_eq he) hobject
  · rfl

theorem readScalar_number {c : Char} (hnull : c ≠ 'n') (htrue : c ≠ 't') (hfalse : c ≠ 'f') (s : Text) :
    readScalar (c :: s) = readNumber (c :: s) := by
  unfold readScalar
  split
  · rename_i rest he
    exact absurd (List.head_eq_of_cons_eq he) hnull
  · rename_i rest he
    exact absurd (List.head_eq_of_cons_eq he) htrue
  · rename_i rest he
    exact absurd (List.head_eq_of_cons_eq he) hfalse
  · rfl

/-- a text that is not empty leaves the reader some fuel -/
theorem exists_fuel {written s : Text} {c : Char} (h : written = c :: s) {fuel : Nat}
    (hfuel : 2 * written.length ≤ fuel) : ∃ n, fuel = n + 1 := by
  subst h
  rw [List.length_cons] at hfuel
  exact ⟨fuel - 1, by omega⟩

theorem readsBack_integer (n : Int) : ReadsBack (ofInteger n) (integer n) := by
  intro fuel rest hfuel hrest
  have hnumber := readNumber_ofInteger n hrest
  obtain ⟨c, s, hs, hc⟩ := exists_sign n
  obtain ⟨fuel, rfl⟩ := exists_fuel hs hfuel
  rw [hs, List.cons_append] at hnumber ⊢
  rw [readValue_scalar (isSpace_eq_false hc) (hc '"' (by decide) (by decide)) (hc '[' (by decide) (by decide))
    (hc '{' (by decide) (by decide)), readScalar_number (hc 'n' (by decide) (by decide))
    (hc 't' (by decide) (by decide)) (hc 'f' (by decide) (by decide)), hnumber]

theorem readsBack_text (s : Text) : ReadsBack (quote s) (text s) := by
  intro fuel rest hfuel _
  obtain ⟨fuel, rfl⟩ := exists_fuel rfl hfuel
  simp [quote, readValue, skipSpace_cons (c := '"') (by decide), readChars_quoted]

theorem enclose_append (layout : Layout) (level : Nat) (opening closing : Char) {parts : List Text} (h : parts ≠ [])
    (rest : Text) : layout.enclose level opening closing parts ++ rest =
      opening :: (layout.newline (level + 1) ++ (List.intercalate (',' :: layout.newline (level + 1)) parts ++
        (layout.newline level ++ closing :: rest))) := by
  cases parts with
  | nil => contradiction
  | cons part parts => simp [Layout.enclose]

theorem exists_joined_first {c : Char} {s : Text} (separator : Text) (parts : List Text) :
    ∃ s', List.intercalate separator ((c :: s) :: parts) = c :: s' := by
  cases parts with
  | nil => exact ⟨s, by simp⟩
  | cons part parts => exact ⟨_, by rw [List.intercalate_cons_cons]; rfl⟩

section Enclosed

variable {b : Text} (hb : ∀ c ∈ b, isSpace c = true) {c : Char} (hc : isSpace c = false) (fuel : Nat) (s : Text)

include hb hc

theorem readValue_array (hne : c ≠ ']') :
    readValue (fuel + 1) ('[' :: (b ++ c :: s)) = (readItems fuel (c :: s)).map fun p => (array p.1, p.2) := by
  have hskip : skipSpace (b ++ c :: s) = c :: s := by rw [skipSpace_append hb, skipSpace_cons hc]
  simp only [readValue, skipSpace_cons (c := '[') (by decide), hskip]
  split
  · rename_i rest he
    exact absurd (List.head_eq_of_cons_eq he) hne
  · rfl

theorem readValue_object (hne : c ≠ '}') :
    readValue (fuel + 1) ('{' :: (b ++ c :: s)) = (readFields fuel (c :: s)).map fun p => (object p.1, p.2) := by
  have hskip : skipSpace (b ++ c :: s) = c :: s := by rw [skipSpace_append hb, skipSpace_cons hc]
  simp only [readValue, skipSpace_cons (c := '{') (by decide), hskip]
  split
  · rename_i rest he
    exact absurd (List.head_eq_of_cons_eq he) hne
  · rfl

end Enclosed

/-- elements between brackets, read by the reader that the opening bracket calls -/
theorem readsBack_enclosed {α : Type} {read : Nat → Text → Option (List α × Text)} {write : α → Text}
    {opening closing : Char} {wrap : List α → Json} {elements : List α}
    (hopen : ∀ {b : Text}, (∀ c ∈ b, isSpace c = true) → ∀ {c : Char}, isSpace c = false → ∀ fuel s, c ≠ closing →
      readValue (fuel + 1) (opening :: (b ++ c :: s)) = (read fuel (c :: s)).map fun p => (wrap p.1, p.2))
    (hread : ReadsElements read write closing elements) (hne : elements ≠ [])
    (hfirst : ∀ a ∈ elements, ∃ c s, write a = c :: s ∧ isSpace c = false ∧ c ≠ closing)
    (layout : Layout) (level : Nat) :
    ReadsBack (layout.enclose level opening closing (elements.map write)) (wrap elements) := by
  intro fuel rest hfuel _
  have hblanks : ∀ level, ∀ c ∈ layout.newline level, isSpace c = true := fun _ c hc => isSpace_of_mem_newline hc
  have hparts : elements.map write ≠ [] := by simpa using hne
  have hlength := congrArg List.length (enclose_append layout level opening closing hparts [])
  simp only [List.append_nil, List.length_cons, List.length_append, List.length_nil] at hlength
  obtain ⟨fuel, rfl⟩ := Nat.exists_eq_add_one_of_ne_zero (show fuel ≠ 0 by omega)
  have hjoined := hread.joined hne (hblanks (level + 1)) (hblanks level) fuel rest (by omega)
  rw [enclose_append layout level opening closing hparts]
  obtain ⟨a, elements, rfl⟩ := List.exists_cons_of_ne_nil hne
  obtain ⟨c, s, hs, hspace, hclosing⟩ := hfirst a List.mem_cons_self
  obtain ⟨s', hs'⟩ := exists_joined_first (c := c) (s := s) (',' :: layout.newline (level + 1)) (elements.map write)
  rw [List.map_cons, hs, hs', List.cons_append] at hjoined ⊢
  rw [hopen (hblanks (level + 1)) hspace fuel _ hclosing, hjoined, Option.map_some]

theorem readsBack_array {layout : Layout} {level : Nat} {items : List Json} (h : ∀ v ∈ items, IsExact v)
    (hread : ∀ v ∈ items, ReadsBack (renderAt layout (level + 1) v) v) :
    ReadsBack (renderAt layout level (array items)) (array items) := by
  rw [renderAt, renderItems_eq]
  by_cases hne : items = []
  · intro fuel rest hfuel _
    obtain ⟨fuel, rfl⟩ := exists_fuel rfl (hne ▸ hfuel)
    simp [hne, Layout.enclose, readValue, skipSpace_cons (c := '[') (by decide), skipSpace_cons (c := ']') (by decide)]
  · exact readsBack_enclosed readValue_array (readsElements_items hread) hne
      (fun v hv => exists_first (h v hv) layout (level + 1)) layout level

theorem readsBack_object {layout : Layout} {level : Nat} {fields : List (Text × Json)}
    (hread : ∀ f ∈ fields, ReadsBack (renderAt layout (level + 1) f.2) f.2) :
    ReadsBack (renderAt layout level (object fields)) (object fields) := by
  rw [renderAt, renderFields_eq]
  by_cases hne : fields = []
  · intro fuel rest hfuel _
    obtain ⟨fuel, rfl⟩ := exists_fuel rfl (hne ▸ hfuel)
    simp [hne, Layout.enclose, readValue, skipSpace_cons (c := '{') (by decide), skipSpace_cons (c := '}') (by decide)]
  · exact readsBack_enclosed readValue_object (readsElements_fields hread) hne
      (fun f _ => ⟨'"', _, rfl, by decide⟩) layout level

theorem readsBack_renderAt {v : Json} (h : IsExact v) (layout : Layout) (level : Nat) :
    ReadsBack (renderAt layout level v) v := by
  induction h generalizing level with
  | null =>
    intro fuel rest hfuel _
    obtain ⟨fuel, rfl⟩ := exists_fuel rfl hfuel
    exact readValue_scalar (by decide) (by decide) (by decide) (by decide) fuel _
  | bool b =>
    intro fuel rest hfuel _
    cases b with
    | false =>
      obtain ⟨fuel, rfl⟩ := exists_fuel rfl hfuel
      exact readValue_scalar (by decide) (by decide) (by decide) (by decide) fuel _
    | true =>
      obtain ⟨fuel, rfl⟩ := exists_fuel rfl hfuel
      exact readValue_scalar (by decide) (by decide) (by decide) (by decide) fuel _
  | integer n => exact readsBack_integer n
  | text s => exact readsBack_text s
  | array h ih => exact readsBack_array h fun v hv => ih v hv (level + 1)
  | object h ih => exact readsBack_object fun f hf => ih f hf (level + 1)

/-- **Written values are read back**, in either layout. -/
theorem read?_render {v : Json} (h : IsExact v) (layout : Layout) : read? (v.render layout) = some v := by
  have hread := readsBack_renderAt h layout 0 (2 * (v.render layout).length + 2) [] (Nat.le_add_right _ 2)
    (by simp [Stops])
  rw [List.append_nil] at hread
  simp only [read?, render] at hread ⊢
  simp [hread, skipSpace]

end ClassAtlas.Json
