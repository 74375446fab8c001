/-
Texts in the order of their bytes.

UTF-8 keeps the order of the code points: a character whose form is longer starts with a greater byte, and two forms of
one length are compared digit by digit, the highest digit first (`utf8EncodeChar_lt`). So texts are in the same order
whether they are compared by characters or by the bytes of their UTF-8 forms (`encodeUtf8_lt_iff`).
-/
import Mathlib.Tactic.SplitIfs
import ClassAtlas.Text.Utf8

namespace ClassAtlas.Text

theorem ofNat_cons_lt {m n : Nat} (hm : m < 256) (hn : n < 256) {l l' : List UInt8} :
    UInt8.ofNat m :: l < UInt8.ofNat n :: l' ↔ m < n ∨ m = n ∧ l < l' := by
  rw [List.cons_lt_cons_iff, UInt8.lt_iff_toNat_lt, ← UInt8.toNat_inj, UInt8.toNat_ofNat_of_lt' hm,
    UInt8.toNat_ofNat_of_lt' hn]

theorem toNat_val_lt (c : Char) : c.val.toNat < 0x110000 := by
  have hvalid := c.valid
  unfold UInt32.isValidChar Nat.isValidChar at hvalid
  omega

/-- the bytes of a character come before those of a greater one, whatever follows -/
theorem utf8EncodeChar_lt {c d : Char} (h : c < d) (s t : List UInt8) :
    String.utf8EncodeChar c ++ s < String.utf8EncodeChar d ++ t := by
  have hlt : c.val.toNat < d.val.toNat := h
  have hbound := toNat_val_lt d
  unfold String.utf8EncodeChar
  generalize c.val.toNat = v at hlt
  generalize d.val.toNat = w at hlt hbound
  -- the digits have base 64, so each comes from the number that the digits before it form
  have htwo : ∀ n, n / 4096 = n / 64 / 64 := by omega
  have hthree : ∀ n, n / 262144 = n / 64 / 64 / 64 := by omega
  dsimp only
  split_ifs
  all_goals simp (disch := omega) only [List.cons_append, List.nil_append, ofNat_cons_lt, htwo, hthree]
  all_goals omega

theorem encodeUtf8_cons (c : Char) (s : Text) : encodeUtf8 (c :: s) = String.utf8EncodeChar c ++ encodeUtf8 s := rfl

theorem encodeUtf8_lt_of_lt {a b : Text} (h : a < b) : encodeUtf8 a < encodeUtf8 b := by
  induction a generalizing b with
  | nil =>
    cases b with
    | nil => exact absurd h (List.lt_irrefl [])
    | cons d b =>
      obtain ⟨byte, more, hbytes⟩ := List.exists_cons_of_ne_nil (@String.utf8EncodeChar_ne_nil d)
      rw [encodeUtf8_cons, hbytes]
      exact List.nil_lt_cons byte _
  | cons c a ih =>
    cases b with
    | nil => exact absurd h (List.not_lt_nil _)
    | cons d b =>
      rw [encodeUtf8_cons, encodeUtf8_cons]
      rcases List.cons_lt_cons_iff.1 h with hlt | ⟨rfl, hrest⟩
      · exact utf8EncodeChar_lt hlt _ _
      · exact List.append_left_lt (ih hrest)

/-- **The order of texts is that of their bytes.** -/
theorem encodeUtf8_lt_iff {a b : Text} : encodeUtf8 a < encodeUtf8 b ↔ a < b := by
  constructor
  · intro h
    by_cases hab : a < b
    · exact hab
    · by_cases hba : b < a
      · exact absurd (encodeUtf8_lt_of_lt hba) (Std.Asymm.asymm _ _ h)
      · obtain rfl := Std.Trichotomous.trichotomous (r := (· < ·)) a b hab hba
        exact absurd h (List.lt_irrefl _)
  · exact encodeUtf8_lt_of_lt

end ClassAtlas.Text
