/-
What a match says about the text it was found in.

Every pattern is sound: what a match took and what it left are together the text that was given (`Sound`, one lemma per
combinator). The lemmas on membership open a match of a larger pattern into the matches of its parts. Of several matches
the best one counts (`Reads`). Where all matches agree there is nothing to prefer (`reads_of_unique`), and a repetition
without a choice takes all that it can (`Reads.upTo_flatMap`).
-/
import Mathlib.Data.List.TakeWhile
import ClassAtlas.Pattern.Name

namespace ClassAtlas.Pattern

variable {α β : Type}

/-! ## Opening a match -/

theorem mem_bind {p : Pattern α} {f : α → Pattern β} {s t r : Text} {b : β} :
    ⟨b, t, r⟩ ∈ (p >>= f) s ↔
      ∃ a t₁ r₁ t₂, ⟨a, t₁, r₁⟩ ∈ p s ∧ ⟨b, t₂, r⟩ ∈ f a r₁ ∧ t = t₁ ++ t₂ := by
  show _ ∈ p.andThen f s ↔ _
  simp only [andThen, List.mem_flatMap, List.mem_map]
  constructor
  · rintro ⟨⟨a, t₁, r₁⟩, hm, ⟨b', t₂, r₂⟩, hk, he⟩
    obtain ⟨rfl, rfl, rfl⟩ := Match.mk.inj he
    exact ⟨a, t₁, r₁, t₂, hm, hk, rfl⟩
  · rintro ⟨a, t₁, r₁, t₂, hm, hk, rfl⟩
    exact ⟨⟨a, t₁, r₁⟩, hm, ⟨b, t₂, r⟩, hk, rfl⟩

/-- a match of two patterns in a row -/
theorem mem_bind_of {p : Pattern α} {f : α → Pattern β} {s t₁ r₁ t₂ r : Text} {a : α} {b : β} (hp : ⟨a, t₁, r₁⟩ ∈ p s)
    (hf : ⟨b, t₂, r⟩ ∈ f a r₁) : ⟨b, t₁ ++ t₂, r⟩ ∈ (p >>= f) s :=
  mem_bind.2 ⟨a, t₁, r₁, t₂, hp, hf, rfl⟩

theorem mem_pure {a b : α} {s t r : Text} : ⟨b, t, r⟩ ∈ (pure a : Pattern α) s ↔ b = a ∧ t = [] ∧ r = s := by
  show _ ∈ succeed a s ↔ _
  simp [succeed]

theorem mem_or {p q : Pattern α} {s : Text} {m : Match α} : m ∈ (p.or q) s ↔ m ∈ p s ∨ m ∈ q s := by
  simp [Pattern.or]

theorem mem_optional {p : Pattern Unit} {s t r : Text} {u : Unit} :
    ⟨u, t, r⟩ ∈ optional p s ↔ ⟨u, t, r⟩ ∈ p s ∨ t = [] ∧ r = s := by
  simp [optional, mem_or, succeed]

theorem mem_satisfy {test : Char → Bool} {s t r : Text} {u : Unit} :
    ⟨u, t, r⟩ ∈ satisfy test s ↔ ∃ c, test c = true ∧ t = [c] ∧ s = c :: r := by
  cases s with
  | nil => simp [satisfy]
  | cons c rest =>
    have hs : satisfy test (c :: rest) = if test c then [⟨(), [c], rest⟩] else [] := rfl
    rw [hs]
    by_cases h : test c = true
    · simp only [h, ite_true, List.mem_singleton, Match.mk.injEq, true_and, List.cons.injEq]
      constructor
      · rintro ⟨rfl, rfl⟩
        exact ⟨c, h, rfl, rfl, rfl⟩
      · rintro ⟨_, -, rfl, rfl, rfl⟩
        exact ⟨rfl, rfl⟩
    · simp only [h, Bool.false_eq_true, ite_false, List.not_mem_nil, false_iff, not_exists, not_and, List.cons.injEq]
      rintro d hd - rfl
      exact absurd hd h

theorem mem_char (c : Char) (rest : Text) : ⟨(), [c], rest⟩ ∈ char c (c :: rest) :=
  mem_satisfy.2 ⟨c, beq_self_eq_true c, rfl, rfl⟩

theorem mem_literal {word s t r : Text} {u : Unit} : ⟨u, t, r⟩ ∈ literal word s ↔ t = word ∧ s = word ++ r := by
  unfold literal
  split
  · rename_i h
    obtain ⟨rest, rfl⟩ := List.isPrefixOf_iff_prefix.1 h
    simp [eq_comm]
  · rename_i h
    simp only [List.not_mem_nil, false_iff, not_and]
    rintro rfl rfl
    exact absurd (List.isPrefixOf_iff_prefix.2 (List.prefix_append t r)) h

theorem mem_span {test : Char → Bool} {least most : Nat} {s t r : Text} {u : Unit}
    (h : ⟨u, t, r⟩ ∈ span test least most s) :
    s = t ++ r ∧ (∀ c ∈ t, test c = true) ∧ least ≤ t.length ∧ t.length ≤ most := by
  unfold span at h
  simp only at h
  split at h
  · contradiction
  · rename_i hl
    obtain ⟨rfl, rfl⟩ := by simpa using h
    refine ⟨?_, fun c hc => List.mem_takeWhile_imp hc, Nat.le_of_not_lt hl, ?_⟩
    · have hp := (List.takeWhile_prefix test (l := s.take most)).trans (List.take_prefix most s)
      exact (List.prefix_iff_eq_append.1 hp).symm
    · exact Nat.le_trans (List.takeWhile_prefix _).length_le (List.length_take_le most s)

theorem mem_spanAll {test : Char → Bool} {least : Nat} {s t r : Text} {u : Unit}
    (h : ⟨u, t, r⟩ ∈ spanAll test least s) :
    s = t ++ r ∧ (∀ c ∈ t, test c = true) ∧ least ≤ t.length := by
  unfold spanAll at h
  simp only at h
  split at h
  · contradiction
  · rename_i hl
    obtain ⟨rfl, rfl⟩ := by simpa using h
    refine ⟨?_, fun c hc => List.mem_takeWhile_imp hc, Nat.le_of_not_lt hl⟩
    exact (List.prefix_iff_eq_append.1 (List.takeWhile_prefix test)).symm

theorem mem_capture {p : Pattern α} {s t r v : Text} : ⟨v, t, r⟩ ∈ capture p s ↔ v = t ∧ ∃ a, ⟨a, t, r⟩ ∈ p s := by
  simp only [capture, List.mem_map]
  constructor
  · rintro ⟨⟨a, t', r'⟩, hm, he⟩
    obtain ⟨rfl, rfl, rfl⟩ := Match.mk.inj he
    exact ⟨rfl, a, hm⟩
  · rintro ⟨rfl, a, hm⟩
    exact ⟨⟨a, v, r⟩, hm, rfl⟩

theorem mem_notBeforeWord {s t r : Text} {u : Unit} :
    ⟨u, t, r⟩ ∈ notBeforeWord s ↔ s.head?.any Text.isWord = false ∧ t = [] ∧ r = s := by
  unfold notBeforeWord
  split
  · rename_i h
    simp [h]
  · rename_i h
    simp [h]

/-- the closing character is one that ends a run of characters that pass the test -/
theorem mem_closedBy {closing : Char} {test : Char → Bool} {most : Nat} {s t r : Text} {u : Unit} :
    ⟨u, t, r⟩ ∈ closedBy closing test most s ↔
      ∃ a, t = a ++ [closing] ∧ s = a ++ closing :: r ∧ (∀ c ∈ a, test c = true) ∧ a.length ≤ most := by
  simp only [closedBy, List.mem_filterMap, List.mem_reverse, List.mem_range, Nat.lt_succ_iff]
  constructor
  · rintro ⟨n, hn, hmatch⟩
    have hrun := (List.takeWhile_prefix test (l := s.take most)).trans (List.take_prefix most s)
    have hlength : ((s.take most).takeWhile test).length ≤ most :=
      Nat.le_trans (List.takeWhile_prefix _).length_le (List.length_take_le most s)
    have htake : s.take n = ((s.take most).takeWhile test).take n := by
      rw [List.prefix_iff_eq_take.1 hrun, List.take_take, Nat.min_eq_left hn]
    split at hmatch
    · rename_i c rest hd
      split at hmatch
      · rename_i hc
        obtain ⟨-, rfl, rfl⟩ := Match.mk.inj (Option.some.inj hmatch)
        have htext : s = s.take n ++ closing :: rest := by rw [← hc, ← hd, List.take_append_drop]
        have hplace : n < s.length := by
          by_contra hge
          rw [List.drop_eq_nil_of_le (Nat.le_of_not_lt hge)] at hd
          contradiction
        refine ⟨s.take n, ?_, htext, fun d hm => ?_, Nat.le_trans (List.length_take_le n s) (Nat.le_trans hn hlength)⟩
        · rw [List.take_succ_eq_append_getElem hplace]
          have hhere : s[n] = c := by
            have := List.getElem_cons_drop hplace
            rw [hd] at this
            exact (List.cons.inj this).1
          rw [hhere, hc]
        · rw [htake] at hm
          exact List.mem_takeWhile_imp (List.mem_of_mem_take hm)
      · contradiction
    · contradiction
  · rintro ⟨a, rfl, rfl, ha, hlen⟩
    refine ⟨a.length, ?_, ?_⟩
    · rw [List.take_append, List.take_of_length_le hlen, List.takeWhile_append_of_pos ha]
      simp
    · rw [List.drop_left, List.take_length_add_append]
      simp

/-- one repetition more, or none -/
theorem mem_upTo_succ {p : Pattern Unit} {n : Nat} {s t r : Text} {u : Unit} :
    ⟨u, t, r⟩ ∈ upTo (n + 1) p s ↔
      (∃ t₁ r₁ t₂, ⟨(), t₁, r₁⟩ ∈ p s ∧ ⟨u, t₂, r⟩ ∈ upTo n p r₁ ∧ t = t₁ ++ t₂) ∨ t = [] ∧ r = s := by
  have hmore : ⟨u, t, r⟩ ∈ (p.andThen fun _ => upTo n p) s ↔ _ := mem_bind
  rw [upTo, mem_optional, hmore]
  constructor
  · rintro (⟨_, t₁, r₁, t₂, h₁, h₂, ht⟩ | h)
    · exact Or.inl ⟨t₁, r₁, t₂, h₁, h₂, ht⟩
    · exact Or.inr h
  · rintro (⟨t₁, r₁, t₂, h₁, h₂, ht⟩ | h)
    · exact Or.inl ⟨(), t₁, r₁, t₂, h₁, h₂, ht⟩
    · exact Or.inr h

/-- if each repetition takes a text of some form, then all of them take such texts one after the other -/
theorem exists_of_mem_upTo {ι : Type} {write : ι → Text} {good : ι → Prop} {p : Pattern Unit}
    (hp : ∀ {s t r : Text} {u : Unit}, ⟨u, t, r⟩ ∈ p s → s = t ++ r ∧ ∃ i, good i ∧ t = write i) {n : Nat}
    {s t r : Text} {u : Unit} (h : ⟨u, t, r⟩ ∈ upTo n p s) :
    s = t ++ r ∧ ∃ parts : List ι, parts.length ≤ n ∧ (∀ i ∈ parts, good i) ∧ t = parts.flatMap write := by
  induction n generalizing s t with
  | zero =>
    obtain ⟨-, rfl, rfl⟩ := mem_pure.1 h
    exact ⟨rfl, [], Nat.zero_le _, List.forall_mem_nil _, rfl⟩
  | succ n ih =>
    rcases mem_upTo_succ.1 h with ⟨t₁, r₁, t₂, hfirst, hmore, rfl⟩ | ⟨rfl, rfl⟩
    · obtain ⟨rfl, i, hi, rfl⟩ := hp hfirst
      obtain ⟨rfl, parts, hfew, hparts, rfl⟩ := ih hmore
      have hall : ∀ j ∈ i :: parts, good j := List.forall_mem_cons.2 ⟨hi, hparts⟩
      exact ⟨(List.append_assoc _ _ _).symm, i :: parts, Nat.succ_le_succ hfew, hall, rfl⟩
    · exact ⟨rfl, [], Nat.zero_le _, List.forall_mem_nil _, rfl⟩

/-- the same where nothing but the form is known of each text -/
theorem exists_parts_of_mem_upTo {ι : Type} {write : ι → Text} {p : Pattern Unit}
    (hp : ∀ {s t r : Text} {u : Unit}, ⟨u, t, r⟩ ∈ p s → s = t ++ r ∧ ∃ i, t = write i)
    {n : Nat} {s t r : Text} {u : Unit} (h : ⟨u, t, r⟩ ∈ upTo n p s) :
    s = t ++ r ∧ ∃ parts : List ι, parts.length ≤ n ∧ t = parts.flatMap write := by
  obtain ⟨hs, parts, hfew, -, ht⟩ := exists_of_mem_upTo
    (fun hpart => (hp hpart).imp_right fun ⟨i, ht⟩ => ⟨i, trivial, ht⟩) h
  exact ⟨hs, parts, hfew, ht⟩

/-- what may follow a part follows it in a row of parts -/
theorem follows_flatMap {ι : Type} {write : ι → Text} {follows : Text → Prop} {parts : List ι}
    (h : ∀ i ∈ parts, ∀ tail, follows (write i ++ tail)) {tail : Text} (ht : follows tail) :
    follows (parts.flatMap write ++ tail) := by
  cases parts with
  | nil => exact ht
  | cons i parts =>
    rw [List.flatMap_cons, List.append_assoc]
    exact h i List.mem_cons_self _

/-- texts one after the other are taken if each of them is, whatever text may follow it -/
theorem mem_upTo_flatMap {ι : Type} {write : ι → Text} {p : Pattern Unit} (follows : Text → Prop) {parts : List ι}
    (hp : ∀ i ∈ parts, ∀ tail, follows tail → ⟨(), write i, tail⟩ ∈ p (write i ++ tail))
    (hfollows : ∀ i ∈ parts, ∀ tail, follows (write i ++ tail)) {n : Nat} (hfew : parts.length ≤ n) {tail : Text}
    (ht : follows tail) : ⟨(), parts.flatMap write, tail⟩ ∈ upTo n p (parts.flatMap write ++ tail) := by
  induction parts generalizing n with
  | nil =>
    cases n with
    | zero => exact mem_pure.2 ⟨rfl, rfl, rfl⟩
    | succ n => exact mem_upTo_succ.2 (Or.inr ⟨rfl, rfl⟩)
  | cons i parts ih =>
    obtain ⟨n, rfl⟩ := Nat.exists_eq_succ_of_ne_zero (Nat.ne_of_gt (Nat.lt_of_lt_of_le (Nat.succ_pos _) hfew))
    obtain ⟨hfirst, hothers⟩ := List.forall_mem_cons.1 hp
    obtain ⟨-, hlater⟩ := List.forall_mem_cons.1 hfollows
    rw [List.flatMap_cons, List.append_assoc]
    have hmore := ih hothers hlater (Nat.le_of_succ_le_succ hfew)
    exact mem_upTo_succ.2 (Or.inl ⟨_, _, _, hfirst _ (follows_flatMap hlater ht), hmore, rfl⟩)

theorem mem_of_first? {p : Pattern α} {s : Text} {m : Match α} (h : p.first? s = some m) : m ∈ p s :=
  List.mem_of_head? h

/-! ## What a match takes -/

/-- what a match took and what it left are together the text that was given -/
def Sound (p : Pattern α) : Prop := ∀ (s t r : Text) (a : α), ⟨a, t, r⟩ ∈ p s → s = t ++ r

theorem Sound.bind {p : Pattern α} {f : α → Pattern β} (hp : Sound p) (hf : ∀ a, Sound (f a)) : Sound (p >>= f) := by
  intro s t r b h
  obtain ⟨a, t₁, r₁, t₂, h₁, h₂, rfl⟩ := mem_bind.1 h
  rw [hp _ _ _ _ h₁, hf a _ _ _ _ h₂, List.append_assoc]

theorem sound_pure (a : α) : Sound (pure a : Pattern α) := by
  intro s t r b h
  obtain ⟨-, rfl, rfl⟩ := mem_pure.1 h
  rfl

theorem Sound.or {p q : Pattern α} (hp : Sound p) (hq : Sound q) : Sound (p.or q) := by
  intro s t r a h
  exact (mem_or.1 h).elim (hp s t r a) (hq s t r a)

theorem Sound.optional {p : Pattern Unit} (hp : Sound p) : Sound (optional p) :=
  hp.or (sound_pure ())

theorem Sound.upTo {p : Pattern Unit} (hp : Sound p) (n : Nat) : Sound (upTo n p) := by
  induction n with
  | zero => exact sound_pure ()
  | succ n ih => exact (hp.bind fun _ => ih).optional

theorem sound_satisfy (test : Char → Bool) : Sound (satisfy test) := by
  intro s t r a h
  obtain ⟨c, -, rfl, rfl⟩ := mem_satisfy.1 h
  rfl

theorem sound_oneOf (words : List Text) : Sound (oneOf words) := by
  intro s t r a h
  obtain ⟨w, -, hw⟩ := List.mem_flatMap.1 h
  obtain ⟨rfl, rfl⟩ := mem_literal.1 hw
  rfl

theorem sound_span (test : Char → Bool) (least most : Nat) : Sound (span test least most) :=
  fun _ _ _ _ h => (mem_span h).1

theorem sound_spanAll (test : Char → Bool) (least : Nat) : Sound (spanAll test least) :=
  fun _ _ _ _ h => (mem_spanAll h).1

theorem sound_closedBy (closing : Char) (test : Char → Bool) (most : Nat) : Sound (closedBy closing test most) := by
  intro s t r a h
  obtain ⟨n, -, hn⟩ := List.mem_filterMap.1 h
  split at hn
  · rename_i c rest hd
    split at hn
    · obtain ⟨rfl, rfl⟩ := by simpa using hn
      have hrest : s.drop (n + 1) = rest := by rw [← List.tail_drop, hd, List.tail_cons]
      rw [← hrest, List.take_append_drop]
    · contradiction
  · contradiction

theorem Sound.capture {p : Pattern α} (hp : Sound p) : Sound (capture p) := by
  intro s t r v h
  obtain ⟨rfl, a, ha⟩ := mem_capture.1 h
  exact hp _ _ _ _ ha

/-- a match of two patterns in a row has a match of the second one further on -/
theorem exists_suffix_of_bind {p : Pattern α} (hp : Sound p) {f : α → Pattern β} {s t r : Text} {b : β}
    (h : ⟨b, t, r⟩ ∈ (p >>= f) s) : ∃ a s' t', s' <:+ s ∧ ⟨b, t', r⟩ ∈ f a s' := by
  obtain ⟨a, t₁, r₁, t₂, h₁, h₂, -⟩ := mem_bind.1 h
  exact ⟨a, r₁, t₂, ⟨t₁, (hp _ _ _ _ h₁).symm⟩, h₂⟩

/-- every match ends right behind the character -/
def EndsBehind (c : Char) (p : Pattern α) : Prop :=
  ∀ (s t r : Text) (a : α), ⟨a, t, r⟩ ∈ p s → ∃ before, t = before ++ [c] ∧ s = before ++ c :: r

theorem Sound.endsBehind {c : Char} {p : Pattern α} {f : α → Pattern β} (hp : Sound p)
    (hf : ∀ a, EndsBehind c (f a)) : EndsBehind c (p >>= f) := by
  intro s t r b h
  obtain ⟨a, t₁, r₁, t₂, h₁, h₂, rfl⟩ := mem_bind.1 h
  obtain ⟨before, rfl, rfl⟩ := hf a _ _ _ _ h₂
  exact ⟨t₁ ++ before, by simp, by rw [hp _ _ _ _ h₁, List.append_assoc]⟩

theorem endsBehind_char (c : Char) (a : α) : EndsBehind c (char c >>= fun _ => pure a) := by
  intro s t r b h
  obtain ⟨_, _, _, _, h₁, h₂, rfl⟩ := mem_bind.1 h
  obtain ⟨d, hd, rfl, rfl⟩ := mem_satisfy.1 h₁
  obtain ⟨-, rfl, rfl⟩ := mem_pure.1 h₂
  obtain rfl : d = c := by simpa using hd
  exact ⟨[], rfl, rfl⟩

/-! ## The best match -/

theorem bind_eq_nil {p : Pattern α} {s : Text} (hp : p s = []) (f : α → Pattern β) : (p >>= f) s = [] := by
  show p.andThen f s = []
  rw [andThen, hp]
  rfl

theorem bind_singleton {p : Pattern α} {s t r : Text} {a : α} (hp : p s = [⟨a, t, r⟩]) (f : α → Pattern β) :
    (p >>= f) s = (f a r).map fun n => ⟨n.value, t ++ n.taken, n.rest⟩ := by
  show p.andThen f s = _
  rw [andThen, hp]
  simp

/-- three patterns in a row -/
theorem bind_bind {γ : Type} (p : Pattern α) (f : α → Pattern β) (g : β → Pattern γ) :
    ((p >>= f) >>= g) = (p >>= fun a => f a >>= g) := by
  funext s
  show (p.andThen f).andThen g s = p.andThen (fun a => (f a).andThen g) s
  simp only [andThen, List.flatMap_assoc, List.map_flatMap, List.flatMap_map, List.map_map, Function.comp_def,
    List.append_assoc]

/-- a pattern that takes nothing leaves the choice to the next one -/
theorem bind_of_empty {p : Pattern α} {s : Text} {a : α} (hp : p s = [⟨a, [], s⟩]) (f : α → Pattern β) :
    (p >>= f) s = f a s := by
  rw [bind_singleton hp]
  exact List.map_id' _

/-- the best match of two patterns in a row, if the second one goes on where the best match of the first one ends -/
theorem first?_bind {p : Pattern α} {f : α → Pattern β} {s t r t' r' : Text} {a : α} {b : β}
    (hp : p.first? s = some ⟨a, t, r⟩) (hf : (f a).first? r = some ⟨b, t', r'⟩) :
    (p >>= f).first? s = some ⟨b, t ++ t', r'⟩ := by
  obtain ⟨ms, hms⟩ := List.head?_eq_some_iff.1 hp
  obtain ⟨ns, hns⟩ := List.head?_eq_some_iff.1 hf
  show (p.andThen f s).head? = _
  simp [andThen, hms, hns]

theorem first?_pure (a : α) (s : Text) : (pure a : Pattern α).first? s = some ⟨a, [], s⟩ := rfl

theorem first?_eq_none {p : Pattern α} {s : Text} (h : ∀ a t r, ⟨a, t, r⟩ ∉ p s) : p.first? s = none :=
  List.head?_eq_none_iff.2 (List.eq_nil_iff_forall_not_mem.2 fun m => h m.value m.taken m.rest)

theorem first?_capture {p : Pattern α} {s t r : Text} {a : α} (hp : p.first? s = some ⟨a, t, r⟩) :
    (capture p).first? s = some ⟨t, t, r⟩ := by
  obtain ⟨ms, hms⟩ := List.head?_eq_some_iff.1 hp
  simp [first?, capture, hms]

theorem first?_or {p : Pattern α} {s : Text} {m : Match α} (hp : p.first? s = some m) (q : Pattern α) :
    (p.or q).first? s = some m := by
  obtain ⟨ms, hms⟩ := List.head?_eq_some_iff.1 hp
  simp [first?, Pattern.or, hms]

theorem optional_of_nil {p : Pattern Unit} {s : Text} (hp : p s = []) : optional p s = [⟨(), [], s⟩] := by
  simp [optional, Pattern.or, hp, succeed]

theorem optional_eq_upTo (p : Pattern Unit) : optional p = upTo 1 p := by
  funext s
  simp [upTo, optional, Pattern.or, andThen, succeed, List.flatMap_singleton']

theorem upTo_of_nil {p : Pattern Unit} {s : Text} (hp : p s = []) (n : Nat) : upTo n p s = [⟨(), [], s⟩] := by
  cases n with
  | zero => rfl
  | succ n => exact optional_of_nil (bind_eq_nil hp fun _ => upTo n p)

/-- what comes of one more repetition, and then what comes of none -/
theorem upTo_succ_bind {p : Pattern Unit} {s t r : Text} (hp : p s = [⟨(), t, r⟩]) (f : Unit → Pattern β) (n : Nat) :
    (upTo (n + 1) p >>= f) s =
      ((upTo n p >>= f) r).map (fun m => ⟨m.value, t ++ m.taken, m.rest⟩) ++ f () s := by
  have hmore : (p.andThen fun _ => upTo n p) s = (upTo n p r).map fun m => ⟨m.value, t ++ m.taken, m.rest⟩ :=
    bind_singleton hp fun _ => upTo n p
  show (upTo (n + 1) p).andThen f s = ((upTo n p).andThen f r).map _ ++ f () s
  simp only [andThen, upTo, optional, Pattern.or, List.flatMap_append] at hmore ⊢
  rw [hmore, List.flatMap_map, List.map_flatMap]
  simp [succeed, Function.comp_def, List.append_assoc]

/-- one more repetition -/
theorem first?_upTo_bind {p : Pattern Unit} {f : Unit → Pattern β} {s t r t' r' : Text} {b : β}
    (hp : p s = [⟨(), t, r⟩])
    {n : Nat} (hf : (upTo n p >>= f).first? r = some ⟨b, t', r'⟩) :
    (upTo (n + 1) p >>= f).first? s = some ⟨b, t ++ t', r'⟩ := by
  obtain ⟨ms, hms⟩ := List.head?_eq_some_iff.1 hf
  rw [first?, upTo_succ_bind hp, hms]
  rfl

/-- Choices that lead nowhere do not count: the last one, which takes nothing, is left. -/
theorem bind_of_nil {q : Pattern Unit} {f : Unit → Pattern β} {s : Text} {extra : List (Match Unit)}
    (hq : q s = extra ++ [⟨(), [], s⟩]) (hextra : ∀ m ∈ extra, f () m.rest = []) : (q >>= f) s = f () s := by
  show q.andThen f s = _
  have hnone : extra.flatMap
      (fun m => (f m.value m.rest).map fun k => (⟨k.value, m.taken ++ k.taken, k.rest⟩ : Match β)) = [] :=
    List.flatMap_eq_nil_iff.2 fun m hm => List.map_eq_nil_iff.2 (hextra m hm)
  rw [andThen, hq, List.flatMap_append, hnone]
  simp

/-- the same, if all of them lead to one text -/
theorem bind_of_dead {q : Pattern Unit} {f : Unit → Pattern β} {s dead : Text} {extra : List (Match Unit)}
    (hq : q s = extra ++ [⟨(), [], s⟩]) (hextra : ∀ m ∈ extra, m.rest = dead) (hf : f () dead = []) :
    (q >>= f) s = f () s :=
  bind_of_nil hq fun m hm => hextra m hm ▸ hf

/-! ## What is read -/

/-- the best match has this value and leaves this text -/
def Reads (p : Pattern α) (s : Text) (a : α) (r : Text) : Prop := ∃ taken, p.first? s = some ⟨a, taken, r⟩

/-- if all matches agree, then there is nothing to prefer -/
theorem reads_of_unique {p : Pattern α} {s t r : Text} {a : α} (h : ⟨a, t, r⟩ ∈ p s)
    (hunique : ∀ b t' r', ⟨b, t', r'⟩ ∈ p s → b = a ∧ r' = r) : Reads p s a r := by
  obtain ⟨⟨b, t', r'⟩, others, hmatches⟩ := List.exists_cons_of_ne_nil (List.ne_nil_of_mem h)
  obtain ⟨rfl, rfl⟩ := hunique b t' r' (hmatches ▸ List.mem_cons_self)
  exact ⟨t', congrArg List.head? hmatches⟩

theorem Reads.bind {p : Pattern α} {f : α → Pattern β} {s t r r' : Text} {a : α} {b : β} (hp : p s = [⟨a, t, r⟩])
    (hf : Reads (f a) r b r') : Reads (p >>= f) s b r' := by
  obtain ⟨taken, htaken⟩ := hf
  exact ⟨_, first?_bind (congrArg List.head? hp) htaken⟩

theorem Reads.upTo_bind {p : Pattern Unit} {f : Unit → Pattern β} {s t r r' : Text} {b : β} {n : Nat}
    (hp : p s = [⟨(), t, r⟩]) (hf : Reads (upTo n p >>= f) r b r') : Reads (upTo (n + 1) p >>= f) s b r' := by
  obtain ⟨taken, htaken⟩ := hf
  exact ⟨_, first?_upTo_bind hp htaken⟩

theorem Reads.of_eq {p q : Pattern α} {s r : Text} {a : α} (h : p s = q s) (hq : Reads q s a r) : Reads p s a r := by
  obtain ⟨taken, htaken⟩ := hq
  exact ⟨taken, by rw [first?, h]; exact htaken⟩

/-- a repetition takes as many parts as there are, if it has no choice in any of them -/
theorem Reads.upTo_flatMap {ι : Type} {write : ι → Text} {p : Pattern Unit} (follows : Text → Prop) {parts : List ι}
    (hp : ∀ i ∈ parts, ∀ tail, follows tail → p (write i ++ tail) = [⟨(), write i, tail⟩])
    (hfollows : ∀ i ∈ parts, ∀ tail, follows (write i ++ tail)) {n : Nat} (hfew : parts.length ≤ n) {s : Text}
    (hs : follows s) (hnone : p s = []) {f : Unit → Pattern β} {b : β} {r : Text} (hf : Reads (f ()) s b r) :
    Reads (upTo n p >>= f) (parts.flatMap write ++ s) b r := by
  induction parts generalizing n with
  | nil => exact .of_eq (bind_of_empty (upTo_of_nil hnone n) f) hf
  | cons i parts ih =>
    obtain ⟨n, rfl⟩ := Nat.exists_eq_succ_of_ne_zero (Nat.ne_of_gt (Nat.lt_of_lt_of_le (Nat.succ_pos _) hfew))
    obtain ⟨hfirst, hothers⟩ := List.forall_mem_cons.1 hp
    obtain ⟨-, hlater⟩ := List.forall_mem_cons.1 hfollows
    rw [List.flatMap_cons, List.append_assoc]
    exact .upTo_bind (hfirst _ (follows_flatMap hlater hs)) (ih hothers hlater (Nat.le_of_succ_le_succ hfew))

/-! ## Matches inside a text -/

/-- a match at a word start is the best match of some end of the text, at a place where a word may start -/
theorem mem_scanWords {p : Pattern α} {skip : Nat} {previous : Option Char} {text : Text}
    {found : Option Char × Match α} (h : found ∈ scanWords p skip previous text) :
    ∃ a b, text = a ++ b ∧ p.first? b = some found.2 ∧ found.1 = a.getLast?.or previous ∧
      startsWord found.1 = true := by
  induction text generalizing skip previous with
  | nil => simp [scanWords] at h
  | cons c rest ih =>
    have later : ∀ {k : Nat}, found ∈ scanWords p k (some c) rest → ∃ a b, c :: rest = a ++ b ∧
        p.first? b = some found.2 ∧ found.1 = a.getLast?.or previous ∧ startsWord found.1 = true := by
      intro k hk
      obtain ⟨a, b, rfl, hf, hp, hs⟩ := ih hk
      refine ⟨c :: a, b, rfl, hf, ?_, hs⟩
      rw [hp, List.getLast?_cons]
      cases a.getLast? with
      | none => rfl
      | some d => rfl
    cases skip with
    | succ skip => exact later h
    | zero =>
      simp only [scanWords] at h
      split at h
      · rename_i m hm
        rcases List.mem_cons.1 h with rfl | h
        · split at hm
          · rename_i hs
            exact ⟨[], c :: rest, rfl, hm, rfl, hs⟩
          · contradiction
        · exact later h
      · exact later h

theorem mem_atWordStarts {p : Pattern α} {text : Text} {found : Option Char × Match α}
    (h : found ∈ p.atWordStarts text) :
    ∃ a b, text = a ++ b ∧ p.first? b = some found.2 ∧ found.1 = a.getLast? ∧ startsWord found.1 = true := by
  obtain ⟨a, b, ht, hf, hp, hs⟩ := mem_scanWords h
  exact ⟨a, b, ht, hf, by simpa using hp, hs⟩

/-- the best match behind `before`, at a place where a word may start -/
def FoundAfter (p : Pattern α) (previous : Option Char) (text before : Text) (m : Match α) : Prop :=
  ∃ rest, text = before ++ rest ∧ startsWord (before.getLast?.or previous) = true ∧ p.first? rest = some m

theorem foundAfter_nil {p : Pattern α} {previous : Option Char} {text : Text} {m : Match α} :
    FoundAfter p previous text [] m ↔ startsWord previous = true ∧ p.first? text = some m := by
  simp [FoundAfter]

theorem foundAfter_cons {p : Pattern α} {previous : Option Char} {c : Char} {text before : Text} {m : Match α} :
    FoundAfter p previous (c :: text) (c :: before) m ↔ FoundAfter p (some c) text before m := by
  have hlast : (c :: before).getLast?.or previous = before.getLast?.or (some c) := by
    cases h : before.getLast? <;> simp [List.getLast?_cons, h]
  simp [FoundAfter, hlast]

/-- **The scan finds the first place.** Its first match is the best one at the first place where there is any. -/
theorem head?_scanWords_eq_some_iff {p : Pattern α} (hp : p.first? [] = none) {previous : Option Char} {text : Text}
    {m : Match α} : ((scanWords p 0 previous text).head?).map Prod.snd = some m ↔
      ∃ before, FoundAfter p previous text before m ∧
        ∀ before' m', FoundAfter p previous text before' m' → before.length ≤ before'.length := by
  induction text generalizing previous with
  | nil =>
    simp only [scanWords, List.head?_nil, Option.map_none, reduceCtorEq, false_iff]
    rintro ⟨before, ⟨rest, he, -, hm⟩, -⟩
    obtain ⟨rfl, rfl⟩ := List.append_eq_nil_iff.1 he.symm
    rw [hp] at hm
    contradiction
  | cons c text ih =>
    rw [scanWords]
    split
    · -- a match right here leaves nothing to look for
      rename_i found hfound
      obtain ⟨hstart, hfound⟩ := Option.ite_none_right_eq_some.1 hfound
      have hhere : FoundAfter p previous (c :: text) [] found := foundAfter_nil.2 ⟨hstart, hfound⟩
      simp only [List.head?_cons, Option.map_some, Option.some.injEq]
      constructor
      · rintro rfl
        exact ⟨[], hhere, fun _ _ _ => Nat.zero_le _⟩
      · rintro ⟨before, hbefore, hleast⟩
        obtain rfl := List.length_eq_zero_iff.1 (Nat.le_zero.1 (hleast [] found hhere))
        exact Option.some.inj (hfound.symm.trans (foundAfter_nil.1 hbefore).2)
    · rename_i hnone
      have hlater : ∀ {before m'}, FoundAfter p previous (c :: text) before m' →
          ∃ more, before = c :: more ∧ FoundAfter p (some c) text more m' := by
        intro before m' h
        cases before with
        | nil =>
          obtain ⟨hstart, hm⟩ := foundAfter_nil.1 h
          rw [if_pos hstart, hm] at hnone
          contradiction
        | cons d more =>
          obtain rfl : c = d := by
            obtain ⟨rest, he, -⟩ := h
            exact (List.cons.inj he).1
          exact ⟨more, rfl, foundAfter_cons.1 h⟩
      rw [ih]
      constructor
      · rintro ⟨more, hmore, hleast⟩
        refine ⟨c :: more, foundAfter_cons.2 hmore, fun before' m' h => ?_⟩
        obtain ⟨more', rfl, hmore'⟩ := hlater h
        exact Nat.succ_le_succ (hleast more' m' hmore')
      · rintro ⟨before, hbefore, hleast⟩
        obtain ⟨more, rfl, hmore⟩ := hlater hbefore
        exact ⟨more, hmore, fun more' m' h => Nat.le_of_succ_le_succ (hleast _ m' (foundAfter_cons.2 h))⟩

/-! ## Names -/

theorem isNameChar_of_isNameStart {c : Char} (h : isNameStart c = true) : isNameChar c = true := by
  simp only [isNameStart, isNameChar, Char.isAlphanum, Bool.or_eq_true] at h ⊢
  rcases h with h | h
  · exact Or.inl (Or.inl h)
  · exact Or.inr h

end ClassAtlas.Pattern
