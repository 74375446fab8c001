/-
Byte offsets, slices between them, and the offsets that a search gives.

A byte offset is a boundary if it falls between two characters or on an end of the text. A text can be sliced at two
offsets exactly if they are in order and both are boundaries (`exists_slice_iff`); any other slice is an error.

A search gives the first of its places (`FindsFirst`): the boundaries at or behind its start where what it looks for
stands, and where a new scan that was fed with the text from the start on is at the top level. A search for a text and
one for a character that passes a test differ only in what stands at a place.
-/
import Mathlib.Order.Bounds.Basic
import ClassAtlas.Proofs.Search

namespace ClassAtlas.Text

/-! ## Boundaries -/

/-- the byte offset falls between two characters, or on an end of the text -/
def IsBoundary (s : Text) (i : Nat) : Prop := ∃ a b, s = a ++ b ∧ byteLength a = i

/-- the piece stands in the text and starts at the byte offset -/
def StandsAt (piece s : Text) (i : Nat) : Prop := ∃ a b, s = a ++ (piece ++ b) ∧ byteLength a = i

theorem byteLength_eq_zero {s : Text} : byteLength s = 0 ↔ s = [] := by
  cases s with
  | nil => exact ⟨fun _ => rfl, fun _ => rfl⟩
  | cons c s =>
    have hpos := c.utf8Size_pos
    rw [byteLength_cons]
    exact ⟨fun h => by omega, fun h => by contradiction⟩

theorem byteLength_mono {a b : Text} (h : a <+: b) : byteLength a ≤ byteLength b := by
  obtain ⟨rest, rfl⟩ := h
  rw [byteLength_append]
  exact Nat.le_add_right _ _

/-- of two starts of one text the one with fewer bytes is a start of the other -/
theorem prefix_of_byteLength_le {a b s : Text} (ha : a <+: s) (hb : b <+: s) (h : byteLength a ≤ byteLength b) :
    a <+: b := by
  rcases List.prefix_or_prefix_of_prefix ha hb with hab | ⟨rest, rfl⟩
  · exact hab
  · rw [byteLength_append] at h
    obtain rfl := byteLength_eq_zero.1 (show byteLength rest = 0 by omega)
    exact ⟨[], by simp⟩

theorem append_of_splitAtByte? {s a b : Text} {n : Nat} (h : splitAtByte? s n = some (a, b)) :
    s = a ++ b ∧ byteLength a = n := by
  fun_induction splitAtByte? s n generalizing a with
  | case1 s =>
    obtain ⟨rfl, rfl⟩ := by simpa using h
    exact ⟨rfl, rfl⟩
  | case2 => contradiction
  | case3 => contradiction
  | case4 c s n hfits ih =>
    obtain ⟨⟨x, y⟩, hsplit, he⟩ := Option.map_eq_some_iff.1 h
    obtain ⟨rfl, rfl⟩ := by simpa using he
    obtain ⟨rfl, hlength⟩ := ih hsplit
    refine ⟨rfl, ?_⟩
    rw [byteLength_cons]
    omega

theorem splitAtByte?_eq_some_iff {s a b : Text} {n : Nat} :
    splitAtByte? s n = some (a, b) ↔ s = a ++ b ∧ byteLength a = n := by
  constructor
  · exact append_of_splitAtByte?
  · rintro ⟨rfl, rfl⟩
    exact splitAtByte?_append a b

/-- the same number of bytes cuts the same text off -/
theorem append_inj_of_byteLength {a b a' b' : Text} (h : a ++ b = a' ++ b') (hlength : byteLength a = byteLength a') :
    a = a' ∧ b = b' := by
  have hsplit := splitAtByte?_append a b
  rw [h, hlength, splitAtByte?_append] at hsplit
  obtain ⟨rfl, rfl⟩ := by simpa using hsplit
  exact ⟨rfl, rfl⟩

/-! ## Slices -/

/-- a slice that cannot be taken -/
structure BadSlice where
  text : Text
  first : Nat
  last : Nat

/-- the text between two byte offsets; an error if they are out of order, out of bounds or inside a character -/
def slice (s : Text) (first last : Nat) : Except BadSlice Text :=
  match (splitAtByte? s last).bind fun p => splitAtByte? p.1 first with
  | some (_, piece) => .ok piece
  | none => .error ⟨s, first, last⟩

/-- the text from a byte offset on, up to another one or to the end -/
def sliceTo (s : Text) (first : Nat) (last? : Option Nat) : Except BadSlice Text :=
  slice s first (last?.getD (byteLength s))

theorem slice_eq_ok_iff {s piece : Text} {i j : Nat} :
    slice s i j = .ok piece ↔ ∃ a b, s = a ++ piece ++ b ∧ byteLength a = i ∧ byteLength (a ++ piece) = j := by
  constructor
  · intro h
    unfold slice at h
    split at h
    · rename_i a piece' hsplit
      obtain rfl := Except.ok.inj h
      obtain ⟨⟨upTo, b⟩, hlast, hfirst⟩ := Option.bind_eq_some_iff.1 hsplit
      obtain ⟨rfl, hj⟩ := append_of_splitAtByte? hlast
      obtain ⟨hupTo, hi⟩ := append_of_splitAtByte? hfirst
      obtain rfl : upTo = a ++ piece' := hupTo
      exact ⟨a, b, rfl, hi, hj⟩
    · contradiction
  · rintro ⟨a, b, rfl, rfl, rfl⟩
    rw [slice, splitAtByte?_append, Option.bind_some, splitAtByte?_append]

theorem slice_append (a piece b : Text) :
    slice (a ++ piece ++ b) (byteLength a) (byteLength (a ++ piece)) = .ok piece :=
  slice_eq_ok_iff.2 ⟨a, b, rfl, rfl, rfl⟩

theorem sliceTo_end (a b : Text) : sliceTo (a ++ b) (byteLength a) none = .ok b := by
  have h := slice_append a b []
  rwa [List.append_nil] at h

/-- **What can be sliced.** -/
theorem exists_slice_iff {s : Text} {i j : Nat} :
    (∃ piece, slice s i j = .ok piece) ↔ i ≤ j ∧ IsBoundary s i ∧ IsBoundary s j := by
  constructor
  · rintro ⟨piece, h⟩
    obtain ⟨a, b, rfl, rfl, rfl⟩ := slice_eq_ok_iff.1 h
    refine ⟨byteLength_mono (List.prefix_append a piece), ⟨a, piece ++ b, ?_, rfl⟩, ⟨a ++ piece, b, rfl, rfl⟩⟩
    rw [List.append_assoc]
  · rintro ⟨hle, ⟨a, b, hab, rfl⟩, ⟨c, d, rfl, rfl⟩⟩
    obtain ⟨piece, rfl⟩ := prefix_of_byteLength_le ⟨b, hab.symm⟩ (List.prefix_append c d) hle
    exact ⟨piece, slice_append a piece d⟩

theorem length_lt_of_slice {s piece : Text} {i j : Nat} (h : slice s i j = .ok piece) (hi : 0 < i) :
    piece.length < s.length := by
  obtain ⟨a, b, rfl, rfl, -⟩ := slice_eq_ok_iff.1 h
  have hne : a ≠ [] := fun he => by
    rw [byteLength_eq_zero.2 he] at hi
    contradiction
  have hpos := List.length_pos_iff.2 hne
  simp only [List.length_append]
  omega

/-- the byte offset of the first occurrence of a character -/
def offsetOf? (c : Char) (s : Text) : Option Nat := (splitFirst? c s).map fun p => byteLength p.1

theorem offsetOf?_append_cons {c : Char} {a : Text} (h : c ∉ a) (b : Text) :
    offsetOf? c (a ++ c :: b) = some (byteLength a) := by
  rw [offsetOf?, splitFirst?_append_cons h, Option.map_some]

theorem offsetOf?_eq_none {c : Char} {s : Text} (h : c ∉ s) : offsetOf? c s = none := by
  rw [offsetOf?, splitFirst?_eq_none_iff.2 h, Option.map_none]

end ClassAtlas.Text

namespace ClassAtlas.Nesting

open Text (IsBoundary StandsAt byteLength slice sliceTo)

/-! ## The first place of a search -/

/-- the byte offsets where a search may stop: boundaries at or behind its start where what it looks for stands, and
where a new scan of the text from the start on is at the top level -/
def places (counted : Delimiters) (here : Nat → Prop) (text : Text) (start : Nat) : Set Nat :=
  {i | start ≤ i ∧ IsBoundary text i ∧ here i ∧
    ∃ passed, slice text start i = .ok passed ∧ (State.run counted {} passed).atTop = true}

/-- what is found is the first place; nothing is found if there is none, or if the start is no boundary -/
structure FindsFirst (places : Set Nat) (text : Text) (start : Nat) (found : Option Nat) : Prop where
  some_iff : ∀ i, found = some i ↔ IsBoundary text start ∧ IsLeast places i
  none_iff : found = none ↔ ¬ (IsBoundary text start ∧ ∃ i, i ∈ places)

section FirstPlace

variable {counted : Delimiters} {test : Text → Bool} {here : Nat → Prop} {text : Text} {start i : Nat}

theorem offsetFrom?_eq_some_iff {cut : Text → Option (Text × Text)} :
    offsetFrom? cut text start = some i ↔
      ∃ a b x y, text = a ++ b ∧ byteLength a = start ∧ cut b = some (x, y) ∧ start + byteLength x = i := by
  simp only [offsetFrom?, Option.bind_eq_bind, Option.bind_eq_some_iff, Option.pure_def, Option.some.injEq, Prod.exists,
    Text.splitAtByte?_eq_some_iff]
  constructor
  · rintro ⟨a, b, ⟨htext, hstart⟩, x, y, hcut, hi⟩
    exact ⟨a, b, x, y, htext, hstart, hcut, hi⟩
  · rintro ⟨a, b, x, y, htext, hstart, hcut, hi⟩
    exact ⟨a, b, ⟨htext, hstart⟩, x, y, hcut, hi⟩

/-- the places of a search by byte offsets are its places in the text behind the start -/
theorem mem_places_iff (hhere : ∀ a b, text = a ++ b → (here (byteLength a) ↔ b ≠ [] ∧ test b = true)) :
    i ∈ places counted here text start ↔
      ∃ a x y, text = a ++ (x ++ y) ∧ byteLength a = start ∧ start + byteLength x = i ∧
        IsPlace counted test {} x y := by
  constructor
  · rintro ⟨-, -, hi, passed, hslice, htop⟩
    obtain ⟨a, y, htext, rfl, rfl⟩ := Text.slice_eq_ok_iff.1 hslice
    obtain ⟨hne, htest⟩ := (hhere _ _ htext).1 hi
    rw [List.append_assoc] at htext
    exact ⟨a, passed, y, htext, rfl, (Text.byteLength_append a passed).symm, hne, htop, htest⟩
  · rintro ⟨a, x, y, htext, rfl, rfl, hplace⟩
    rw [← List.append_assoc] at htext
    rw [← Text.byteLength_append]
    refine ⟨Text.byteLength_mono (List.prefix_append a x), ⟨a ++ x, y, htext, rfl⟩, ?_, x, ?_, hplace.atTop⟩
    · exact (hhere _ _ htext).2 ⟨hplace.ne_nil, hplace.passes⟩
    · rw [htext, Text.slice_append]

/-- what is found is a place, and no place comes before it -/
theorem isLeast_of_offsetFrom? (hhere : ∀ a b, text = a ++ b → (here (byteLength a) ↔ b ≠ [] ∧ test b = true))
    (h : offsetFrom? (cutFrom counted test {}) text start = some i) :
    IsBoundary text start ∧ IsLeast (places counted here text start) i := by
  obtain ⟨a, b, x, y, rfl, rfl, hcut, rfl⟩ := offsetFrom?_eq_some_iff.1 h
  obtain ⟨hb, hplace, hfirst⟩ := cutFrom_eq_some_iff.1 hcut
  refine ⟨⟨a, b, rfl, rfl⟩, (mem_places_iff hhere).2 ⟨a, x, y, by rw [hb], rfl, rfl, hplace⟩, fun i' hi' => ?_⟩
  obtain ⟨a', x', y', htext, hstart, rfl, hplace'⟩ := (mem_places_iff hhere).1 hi'
  obtain ⟨rfl, hb'⟩ := Text.append_inj_of_byteLength htext hstart.symm
  have hle : x <+: x' := List.prefix_of_prefix_length_le ⟨y, hb.symm⟩ ⟨y', hb'.symm⟩ (hfirst x' y' hb' hplace')
  exact Nat.add_le_add_left (Text.byteLength_mono hle) _

/-- **A search gives its first place.** -/
theorem findsFirst_offsetFrom? (hhere : ∀ a b, text = a ++ b → (here (byteLength a) ↔ b ≠ [] ∧ test b = true)) :
    FindsFirst (places counted here text start) text start (offsetFrom? (cutFrom counted test {}) text start) := by
  have hfound : ∀ i ∈ places counted here text start,
      ∃ i', offsetFrom? (cutFrom counted test {}) text start = some i' := by
    intro i hi
    obtain ⟨a, x, y, rfl, rfl, rfl, hplace⟩ := (mem_places_iff hhere).1 hi
    cases hcut : cutFrom counted test {} (x ++ y) with
    | none => exact absurd hplace (cutFrom_eq_none_iff.1 hcut x y rfl)
    | some p => exact ⟨_, offsetFrom?_eq_some_iff.2 ⟨a, x ++ y, p.1, p.2, rfl, rfl, hcut, rfl⟩⟩
  refine ⟨fun i => ⟨isLeast_of_offsetFrom? hhere, fun h => ?_⟩, fun hnone h => ?_, fun h => ?_⟩
  · obtain ⟨i', hi'⟩ := hfound i h.2.1
    rw [hi', (isLeast_of_offsetFrom? hhere hi').2.unique h.2]
  · obtain ⟨i, hi⟩ := h.2
    obtain ⟨i', hi'⟩ := hfound i hi
    rw [hnone] at hi'
    contradiction
  · refine Option.eq_none_iff_forall_ne_some.2 fun i hi => h ?_
    obtain ⟨hstart, hleast⟩ := isLeast_of_offsetFrom? hhere hi
    exact ⟨hstart, i, hleast.1⟩

end FirstPlace

theorem standsAt_iff {piece a b : Text} : StandsAt piece (a ++ b) (byteLength a) ↔ piece <+: b := by
  constructor
  · rintro ⟨a', b', htext, hlength⟩
    obtain ⟨-, rfl⟩ := Text.append_inj_of_byteLength htext hlength.symm
    exact List.prefix_append piece b'
  · rintro ⟨rest, rfl⟩
    exact ⟨a, rest, rfl, rfl⟩

theorem findsFirst_offset? {needle : Text} (hn : needle ≠ []) (counted : Delimiters) (text : Text) (start : Nat) :
    FindsFirst (places counted (StandsAt needle text) text start) text start (offset? counted needle text start) := by
  have hcut : cut? counted needle = cutFrom counted (needle.isPrefixOf ·) {} := by
    funext b
    simp [cut?, hn]
  rw [offset?, hcut]
  refine findsFirst_offsetFrom? fun a b htext => ?_
  rw [htext, standsAt_iff, List.isPrefixOf_iff_prefix]
  refine ⟨fun h => ⟨?_, h⟩, And.right⟩
  rintro rfl
  exact hn (List.prefix_nil.1 h)

theorem findsFirst_offsetWhere? (counted : Delimiters) (test : Char → Bool) (text : Text) (start : Nat) :
    FindsFirst (places counted (fun i => ∃ c, test c = true ∧ StandsAt [c] text i) text start) text start
      (offsetWhere? counted test text start) := by
  refine findsFirst_offsetFrom? fun a b htext => ?_
  simp only [htext, standsAt_iff]
  cases b with
  | nil => simp
  | cons d b => simp

/-! ## Slices at found offsets -/

/-- the text from one offset on can be sliced where a search from there stops, and at its end if the search finds
nothing -/
theorem sliceTo_offsetFrom? {cut : Text → Option (Text × Text)} (hcut : ∀ {b x y}, cut b = some (x, y) → b = x ++ y)
    (a b : Text) : sliceTo (a ++ b) (byteLength a) (offsetFrom? cut (a ++ b) (byteLength a)) =
      .ok (((cut b).map Prod.fst).getD b) := by
  rw [offsetFrom?_append]
  cases h : cut b with
  | none => exact Text.sliceTo_end a b
  | some p =>
    rw [hcut h, ← List.append_assoc, Option.map_some, ← Text.byteLength_append]
    exact Text.slice_append a p.1 p.2

theorem sliceTo_offset? (counted : Delimiters) (needle a b : Text) :
    sliceTo (a ++ b) (byteLength a) (offset? counted needle (a ++ b) (byteLength a)) = .ok (before counted needle b) :=
  sliceTo_offsetFrom? cut?_append a b

/-- a search from behind a first character of one byte -/
theorem offset?_cons {c : Char} (hc : c.utf8Size = 1) (counted : Delimiters) (needle rest : Text) :
    offset? counted needle (c :: rest) 1 = (cut? counted needle rest).map fun p => 1 + byteLength p.1 := by
  have h := offset?_append counted needle [c] rest
  rwa [show byteLength [c] = 1 by rw [Text.byteLength_cons, hc]; rfl] at h

/-- where a search for a character cuts, that character comes next -/
theorem exists_cons_of_cut? {counted : Delimiters} {c : Char} {text a b : Text}
    (h : cut? counted [c] text = some (a, b)) : ∃ after, b = c :: after ∧ text = a ++ c :: after := by
  obtain ⟨htext, hplace, -⟩ := cutFrom_eq_some_iff.1 h
  obtain ⟨after, rfl⟩ := List.isPrefixOf_iff_prefix.1 hplace.passes
  exact ⟨after, rfl, htext⟩

/-- a search for a character whose offset must lie before another one is a search in the text up to there -/
theorem filter_offset? (counted : Delimiters) (c : Char) (a b rest : Text) :
    (offset? counted [c] (a ++ (b ++ rest)) (byteLength a)).filter (· < byteLength (a ++ b)) =
      (cut? counted [c] b).map fun p => byteLength (a ++ p.1) := by
  have htest : ∀ x, x ≠ [] → x <:+ b → [c].isPrefixOf (x ++ rest) = [c].isPrefixOf x := by
    intro x hx _
    obtain ⟨d, x, rfl⟩ := List.exists_cons_of_ne_nil hx
    rfl
  have hcut : cut? counted [c] (b ++ rest) = ((cut? counted [c] b).map fun p => (p.1, p.2 ++ rest)).or _ :=
    cutFrom_append_or htest
  rw [offset?_append, hcut]
  cases hb : cut? counted [c] b with
  | some p =>
    obtain ⟨after, -, rfl⟩ := exists_cons_of_cut? hb
    have hpos : 0 < byteLength (c :: after) :=
      Nat.pos_of_ne_zero fun h => List.cons_ne_nil c after (Text.byteLength_eq_zero.1 h)
    simp [Text.byteLength_append, hpos]
  | none =>
    -- behind `b` every offset is too large
    rw [Option.map_none, Option.none_or, Option.map_map, Option.map_none, Option.filter_eq_none_iff]
    intro i hi
    obtain ⟨p, -, rfl⟩ := Option.map_eq_some_iff.1 hi
    simp [Text.byteLength_append]

end ClassAtlas.Nesting
