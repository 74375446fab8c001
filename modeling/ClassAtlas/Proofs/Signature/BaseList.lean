/-
Lists of bases.

A list is cut at its commas outside angle and round brackets, and it ends before the first ` where ` outside them. Only
signs are counted: a place is outside brackets if as many of them are closed before it as are opened (`StandsAt`), and
the sign in `x > 0` closes one. So a list is cut between its bases exactly if outside brackets it has no comma but those
between its bases, and ` where ` only behind the type of the last one (`isSeparated_iff`). Then the types of its bases
are read, whatever arguments they pass (`baseTypes_text`).
-/
import ClassAtlas.Proofs.ScanState
import ClassAtlas.Proofs.Signature.Base
import ClassAtlas.Proofs.Split

namespace ClassAtlas.Signature

open Nesting (Delimiters Shielded State closed opened)

/-! ## Outside brackets -/

/-- the needle stands at this place of the text, outside angle and round brackets -/
def StandsAt (needle text : Text) (i : Nat) : Prop :=
  needle <+: text.drop i ∧ opened (text.take i) = closed (text.take i)

instance (needle text : Text) (i : Nat) : Decidable (StandsAt needle text i) := inferInstanceAs (Decidable (_ ∧ _))

namespace StandsAt

variable {needle text : Text} {i : Nat}

theorem of_append {x y : Text} (he : text = x ++ y) (hy : needle <+: y) (hx : opened x = closed x) :
    StandsAt needle text x.length := by
  simpa [StandsAt, he] using And.intro hy hx

theorem lt_length (h : StandsAt needle text i) (hn : needle ≠ []) : i < text.length := by
  refine Nat.lt_of_not_le fun hle => hn ?_
  have hnil := h.1
  rwa [List.drop_eq_nil_of_le hle, List.prefix_nil] at hnil

theorem exists_append (h : StandsAt needle text i) (hn : needle ≠ []) :
    ∃ x y, text = x ++ y ∧ x.length = i ∧ needle <+: y ∧ opened x = closed x :=
  ⟨_, _, (List.take_append_drop i text).symm, List.length_take_of_le (Nat.le_of_lt (h.lt_length hn)), h⟩

end StandsAt

theorem balanced_of_shielded {p : Char → Prop} {text : Text} (h : Shielded Delimiters.grouping p text) :
    opened text = closed text :=
  (Nesting.atTop_grouping text).1 (Nesting.atTop_run h)

theorem balanced_blanks (blanks : Text.Blanks) : opened blanks.1 = closed blanks.1 :=
  balanced_of_shielded (.of_blanks (fun _ _ => trivial) blanks : Shielded _ (fun _ => True) _)

/-- the scan has read as many closing as opening brackets, so it starts anew -/
theorem atTop_balanced {x : Text} (hx : opened x = closed x) (a : Text) :
    ((State.run Delimiters.grouping {} x).run Delimiters.grouping a).atTop = true ↔ opened a = closed a := by
  rw [← State.run_append, Nesting.atTop_grouping, Nesting.opened_append, Nesting.closed_append]
  omega

/-- the search for the end of a list stops here -/
def opensClause (rest : Text) : Bool := List.isPrefixOf (" where " : Text) rest

theorem opensClause_eq_false {rest : Text} (h : ¬ (" where " : Text) <+: rest) : opensClause rest = false :=
  Bool.eq_false_iff.2 fun hopens => h (List.isPrefixOf_iff_prefix.1 hopens)

theorem not_isPrefix_cons {c : Char} (hc : c ≠ ' ') (rest : Text) : ¬ (" where " : Text) <+: c :: rest :=
  fun hword => hc (List.cons_prefix_cons.1 hword).1.symm

/-! ## One base -/

namespace Base

/-- the brackets of the base are closed as often as they are opened, and neither a comma nor the word that ends a list
stands outside them -/
def IsEnclosed (b : Base) : Prop :=
  opened b.text = closed b.text ∧ ∀ i < b.text.length, ¬ StandsAt [','] b.text i ∧ ¬ StandsAt " where " b.text i

/-- outside brackets, the word that ends a list stands behind the type, and commas stand behind that word -/
def EndsList (b : Base) (rest : Text) : Prop :=
  ∀ i < (b.text ++ rest).length, (StandsAt " where " (b.text ++ rest) i → b.opening.length ≤ i) ∧
    (StandsAt [','] (b.text ++ rest) i → ∃ j < i, StandsAt " where " (b.text ++ rest) j)

instance (b : Base) : Decidable b.IsEnclosed := inferInstanceAs (Decidable (_ ∧ _))

instance (b : Base) (rest : Text) : Decidable (b.EndsList rest) := inferInstanceAs (Decidable (∀ i < _, _))

variable {b : Base} {rest x y : Text}

theorem IsEnclosed.comma (h : b.IsEnclosed) (he : b.text = x ++ ',' :: y) : opened x ≠ closed x := by
  intro hx
  have hstands : StandsAt [','] b.text x.length := .of_append he ⟨y, rfl⟩ hx
  exact (h.2 _ (hstands.lt_length (by decide))).1 hstands

theorem IsEnclosed.word (h : b.IsEnclosed) (he : b.text = x ++ y) (hx : opened x = closed x) :
    ¬ (" where " : Text) <+: y := by
  intro hword
  have hstands := StandsAt.of_append he hword hx
  exact (h.2 _ (hstands.lt_length (by decide))).2 hstands

theorem EndsList.word (h : b.EndsList rest) (he : b.text ++ rest = x ++ y) (hx : opened x = closed x)
    (hword : (" where " : Text) <+: y) : b.opening.length ≤ x.length := by
  have hstands := StandsAt.of_append he hword hx
  exact (h _ (hstands.lt_length (by decide))).1 hstands

/-- the word that stands before a comma outside brackets -/
theorem EndsList.comma (h : b.EndsList rest) (he : b.text ++ rest = x ++ ',' :: y) (hx : opened x = closed x) :
    ∃ u v, b.text ++ rest = u ++ v ∧ u.length < x.length ∧ opened u = closed u ∧ (" where " : Text) <+: v := by
  have hstands : StandsAt [','] (b.text ++ rest) x.length := .of_append he ⟨y, rfl⟩ hx
  obtain ⟨j, hj, hword⟩ := (h _ (hstands.lt_length (by decide))).2 hstands
  obtain ⟨u, v, htext, rfl, hv, hu⟩ := hword.exists_append (by decide)
  exact ⟨u, v, htext, hj, hu, hv⟩

end Base

/-! ## The list -/

/-- one or more bases -/
structure BaseList where
  front : List Base
  last : Base

/-- the bases that have a comma behind them -/
def frontText (front : List Base) : Text := front.flatMap fun b => b.text ++ [',']

theorem frontText_cons (b : Base) (front : List Base) (more : Text) :
    frontText (b :: front) ++ more = b.text ++ ',' :: (frontText front ++ more) := by
  simp [frontText]

theorem count_frontText {c : Char} (hc : ',' ≠ c) (front : List Base) :
    (frontText front).count c = (front.map Base.text).flatten.count c := by
  induction front with
  | nil => rfl
  | cons b front ih =>
    have htext : frontText (b :: front) = b.text ++ ',' :: frontText front := by simp [frontText]
    rw [htext, List.count_append, List.count_cons_of_ne hc, ih, List.map_cons, List.flatten_cons, List.count_append]

/-- commas are no brackets -/
theorem balanced_frontText_iff (front : List Base) : opened (frontText front) = closed (frontText front) ↔
    opened (front.map Base.text).flatten = closed (front.map Base.text).flatten := by
  simp only [opened, closed, count_frontText (by decide : ',' ≠ '<'), count_frontText (by decide : ',' ≠ '('),
    count_frontText (by decide : ',' ≠ '>'), count_frontText (by decide : ',' ≠ ')')]

theorem intercalate_texts (front : List Base) (piece : Text) :
    List.intercalate [','] (front.map Base.text ++ [piece]) = frontText front ++ piece := by
  induction front with
  | nil => simp [frontText]
  | cons b front ih =>
    obtain ⟨next, others, hnext⟩ : ∃ next others, front.map Base.text ++ [piece] = next :: others :=
      List.exists_cons_of_ne_nil (by simp)
    rw [frontText_cons, ← ih, List.map_cons, List.cons_append, hnext, List.intercalate_cons_cons, List.append_assoc]
    rfl

namespace BaseList

variable (l : BaseList)

def text : Text := frontText l.front ++ l.last.text

/-- the trees of the bases, except that of the root of all classes -/
def trees : List TypeTree := ((l.front ++ [l.last]).map Base.tree).filter (!Outline.isRootBase ·)

/-- with this text behind the list, what stands outside brackets is what ends a base or the list -/
def IsSeparated (rest : Text) : Prop := (∀ b ∈ l.front, b.IsEnclosed) ∧ l.last.EndsList rest

instance (rest : Text) : Decidable (l.IsSeparated rest) := inferInstanceAs (Decidable (_ ∧ _))

theorem curly_not_mem_text : '{' ∉ l.text := by
  intro hm
  rcases List.mem_append.1 hm with hm | hm
  · obtain ⟨b, -, hb⟩ := List.mem_flatMap.1 hm
    rcases List.mem_append.1 hb with hb | hb
    · exact b.curly_not_mem_text hb
    · exact absurd hb (by decide)
  · exact l.last.curly_not_mem_text hm

end BaseList

/-! ## The bases before the last one -/

section Front

variable {front : List Base} (h : ∀ b ∈ front, b.IsEnclosed)
include h

theorem balanced_texts : opened (front.map Base.text).flatten = closed (front.map Base.text).flatten := by
  induction front with
  | nil => rfl
  | cons b front ih =>
    obtain ⟨hb, hothers⟩ := List.forall_mem_cons.1 h
    exact Nesting.balanced_append hb.1 (ih hothers)

theorem balanced_frontText : opened (frontText front) = closed (frontText front) :=
  (balanced_frontText_iff front).2 (balanced_texts h)

/-- the search for the end of the list goes on behind them -/
theorem cutFrom_frontText {x : Text} (hx : opened x = closed x) (more : Text) :
    Nesting.cutFrom Delimiters.grouping opensClause (State.run Delimiters.grouping {} x) (frontText front ++ more) =
      (Nesting.cutFrom Delimiters.grouping opensClause
        (State.run Delimiters.grouping {} (x ++ frontText front)) more).map fun q => (frontText front ++ q.1, q.2) := by
  induction front generalizing x with
  | nil => simp [frontText]
  | cons b front ih =>
    obtain ⟨hb, hothers⟩ := List.forall_mem_cons.1 h
    have hpass : ∀ u c v, b.text ++ [','] = u ++ c :: v →
        ((State.run Delimiters.grouping {} x).run Delimiters.grouping u).atTop = true →
          opensClause (c :: (v ++ (frontText front ++ more))) = false := by
      intro u c v he htop
      have hu := (atTop_balanced hx u).1 htop
      refine opensClause_eq_false fun hword => ?_
      rcases Text.append_eq_append_cons he with ⟨z, hz, rfl⟩ | ⟨z, rfl, hz⟩
      · -- the word would stand before the comma
        have htext : c :: (z ++ [','] ++ (frontText front ++ more)) = c :: z ++ ',' :: (frontText front ++ more) := by
          simp
        rw [htext] at hword
        exact hb.word hz hu (Text.isPrefix_of_isPrefix_append_cons hword (by decide))
      · obtain rfl : c = ',' := by
          have hmem : c ∈ [','] := by simp [hz]
          exact List.mem_singleton.1 hmem
        exact not_isPrefix_cons (by decide) _ hword
    have hbalanced : opened (x ++ (b.text ++ [','])) = closed (x ++ (b.text ++ [','])) :=
      Nesting.balanced_append hx (Nesting.balanced_append hb.1 (by decide))
    have htext : frontText (b :: front) = b.text ++ [','] ++ frontText front := rfl
    rw [htext, List.append_assoc, Nesting.cutFrom_append_of_not_test hpass, ← State.run_append, ih hothers hbalanced,
      Option.map_map, List.append_assoc x]
    refine congrFun (congrArg Option.map (funext fun q => ?_)) _
    simp

/-- a split cuts at the comma behind each of them -/
theorem piecesFrom_frontText {x : Text} (hx : opened x = closed x) (more : Text) :
    Nesting.piecesFrom Delimiters.grouping ',' (State.run Delimiters.grouping {} x) (frontText front ++ more) =
      front.map Base.text ++ Nesting.piecesFrom Delimiters.grouping ','
        (State.run Delimiters.grouping {} (x ++ (front.map Base.text).flatten)) more := by
  induction front generalizing x with
  | nil => simp [frontText]
  | cons b front ih =>
    obtain ⟨hb, hothers⟩ := List.forall_mem_cons.1 h
    have hpass : ∀ u v, b.text = u ++ ',' :: v →
        ((State.run Delimiters.grouping {} x).run Delimiters.grouping u).atTop = false := fun u v he =>
      Bool.eq_false_iff.2 fun htop => hb.comma he ((atTop_balanced hx u).1 htop)
    have hbalanced : opened (x ++ b.text) = closed (x ++ b.text) := Nesting.balanced_append hx hb.1
    have htop := (Nesting.atTop_grouping _).2 hbalanced
    rw [frontText_cons, Nesting.piecesFrom_append_of_not_atTop hpass, ← State.run_append, Nesting.piecesFrom, htop,
      beq_self_eq_true, Bool.and_self, if_pos rfl, ih hothers hbalanced, Text.foldr_consFirst, List.append_nil,
      List.map_cons, List.flatten_cons, List.append_assoc x]
    rfl

end Front

/-! ## Where the list is cut -/

/-- the pieces that a list is cut into -/
def piecesOf (list : Text) : List Text :=
  Nesting.piecesFrom Delimiters.grouping ',' {} (Nesting.before Delimiters.grouping " where " list)

namespace BaseList

variable {l : BaseList} {rest : Text}

/-- the list with what follows it, up to the end of its last type and from there on -/
theorem text_append (l : BaseList) (rest : Text) :
    l.text ++ rest = frontText l.front ++ (l.last.opening ++ (l.last.tail ++ rest)) := by
  simp [text, Base.text]

/-- the list does not end before its last type does -/
theorem exists_before (h : l.IsSeparated rest) : ∃ tail,
    Nesting.before Delimiters.grouping " where " (l.text ++ rest) = frontText l.front ++ (l.last.opening ++ tail) := by
  have hcut : ∀ text, Nesting.before Delimiters.grouping " where " text =
      ((Nesting.cutFrom Delimiters.grouping opensClause {} text).map Prod.fst).getD text := fun _ => rfl
  have hfront := cutFrom_frontText (x := []) h.1 rfl (l.last.opening ++ (l.last.tail ++ rest))
  have hopening : ∀ u c v, l.last.opening = u ++ c :: v →
      ((State.run Delimiters.grouping {} (frontText l.front)).run Delimiters.grouping u).atTop = true →
        opensClause (c :: (v ++ (l.last.tail ++ rest))) = false := by
    intro u c v he htop
    refine opensClause_eq_false fun hword => ?_
    have hlast : l.last.text ++ rest = u ++ c :: (v ++ (l.last.tail ++ rest)) := by simp [Base.text, he]
    have hle := h.2.word hlast ((atTop_balanced (balanced_frontText h.1) u).1 htop) hword
    rw [he, List.length_append, List.length_cons] at hle
    omega
  rw [State.run_nil, List.nil_append, Nesting.cutFrom_append_of_not_test hopening] at hfront
  rw [hcut, text_append, hfront]
  cases Nesting.cutFrom Delimiters.grouping opensClause
      ((State.run Delimiters.grouping {} (frontText l.front)).run Delimiters.grouping l.last.opening)
      (l.last.tail ++ rest) with
  | none => exact ⟨l.last.tail ++ rest, rfl⟩
  | some q => exact ⟨q.1, rfl⟩

section Tail

variable {tail : Text} (hbefore : Nesting.before Delimiters.grouping " where " (l.text ++ rest) =
  frontText l.front ++ (l.last.opening ++ tail))
include hbefore

/-- what is read of the last base, and what is left out behind it -/
theorem exists_rest : ∃ left, l.last.text ++ rest = l.last.opening ++ tail ++ left := by
  obtain ⟨left, hleft⟩ := Nesting.before_prefix Delimiters.grouping " where " (l.text ++ rest)
  rw [hbefore, text_append, List.append_assoc, List.append_cancel_left_eq] at hleft
  exact ⟨left, by rw [hleft, Base.text, List.append_assoc]⟩

/-- the reading goes no further than the word that ends the list -/
theorem length_le_of_word (hfront : opened (frontText l.front) = closed (frontText l.front)) {u v : Text}
    (he : l.last.text ++ rest = u ++ v) (hu : opened u = closed u) (hword : (" where " : Text) <+: v) :
    (l.last.opening ++ tail).length ≤ u.length := by
  have htext : l.text ++ rest = frontText l.front ++ u ++ v := by
    rw [text, List.append_assoc, List.append_assoc, he]
  have htop := (Nesting.atTop_grouping _).2 (Nesting.balanced_append hfront hu)
  have hle := Nesting.length_before_le (by decide) htext hword htop
  rw [hbefore] at hle
  simp only [List.length_append] at hle ⊢
  omega

theorem piecesOf_text (h : l.IsSeparated rest) :
    piecesOf (l.text ++ rest) = l.front.map Base.text ++ [l.last.opening ++ tail] := by
  have hbalanced := balanced_texts h.1
  obtain ⟨left, hleft⟩ := exists_rest hbefore
  -- a comma that is read would stand behind the word, which ends the reading
  have hcomma : ∀ u v, l.last.opening ++ tail = u ++ ',' :: v →
      ((State.run Delimiters.grouping {} (l.front.map Base.text).flatten).run Delimiters.grouping u).atTop = false := by
    refine fun u v he => Bool.eq_false_iff.2 fun htop => ?_
    have hlast : l.last.text ++ rest = u ++ ',' :: (v ++ left) := by rw [hleft, he, List.append_assoc, List.cons_append]
    obtain ⟨x, y, hx, hlt, hout, hword⟩ := h.2.comma hlast ((atTop_balanced hbalanced u).1 htop)
    have hle := length_le_of_word hbefore (balanced_frontText h.1) hx hout hword
    rw [he, List.length_append] at hle
    omega
  have hfront := piecesFrom_frontText (x := []) h.1 rfl (l.last.opening ++ tail)
  have hlast := Nesting.piecesFrom_append_of_not_atTop hcomma []
  rw [List.append_nil, Nesting.piecesFrom, Text.foldr_consFirst, List.append_nil] at hlast
  rw [State.run_nil, List.nil_append, hlast] at hfront
  rw [piecesOf, hbefore, hfront]

end Tail

section Cut

variable {tail : Text} (hpieces : piecesOf (l.text ++ rest) = l.front.map Base.text ++ [l.last.opening ++ tail])
include hpieces

theorem before_of_pieces : Nesting.before Delimiters.grouping " where " (l.text ++ rest) =
    frontText l.front ++ (l.last.opening ++ tail) := by
  rw [← intercalate_texts, ← hpieces]
  exact (Nesting.intercalate_piecesFrom _ _).symm

theorem isCut_texts : Nesting.IsCut Delimiters.grouping ',' {} (l.front.map Base.text ++ [l.last.opening ++ tail]) := by
  rw [← hpieces]
  exact Nesting.isCut_piecesFrom _ _

/-- the bases before a cut have closed their brackets -/
theorem balanced_of_pieces {front back : List Base} (hfront : l.front = front ++ back) :
    opened (front.map Base.text).flatten = closed (front.map Base.text).flatten := by
  cases front with
  | nil => rfl
  | cons b front =>
    have htop := (isCut_texts hpieces).between ((b :: front).map Base.text)
      (back.map Base.text ++ [l.last.opening ++ tail]) (by simp) (by simp) (by simp [hfront])
    exact (Nesting.atTop_grouping _).1 htop

theorem isEnclosed_of_pieces {front back : List Base} {b : Base} (hfront : l.front = front ++ b :: back) :
    b.IsEnclosed := by
  have hbefore := before_of_pieces hpieces
  have hbalanced := balanced_of_pieces hpieces hfront
  have hbehind : l.front = (front ++ [b]) ++ back := by rw [hfront, List.append_assoc, List.singleton_append]
  have hboth := balanced_of_pieces hpieces hbehind
  rw [List.map_append, List.flatten_append, Nesting.opened_append, Nesting.closed_append, hbalanced] at hboth
  refine ⟨by simpa using hboth, fun i _ => ⟨fun hcomma => ?_, fun hword => ?_⟩⟩
  · obtain ⟨x, y, he, -, ⟨z, rfl⟩, hx⟩ := hcomma.exists_append (by decide)
    have hinside := (isCut_texts hpieces).inside (front.map Base.text) x z
      (back.map Base.text ++ [l.last.opening ++ tail]) (by simp [hfront, he])
    rw [State.run_append, Bool.eq_false_iff, Ne, atTop_balanced hbalanced] at hinside
    exact hinside hx
  · -- the list would end inside the base
    obtain ⟨x, y, he, -, hy, hx⟩ := hword.exists_append (by decide)
    have hout := (balanced_frontText_iff front).2 hbalanced
    have htop := (Nesting.atTop_grouping _).2 (Nesting.balanced_append hout hx)
    have htext : l.text ++ rest = frontText front ++ x ++ (y ++ ',' :: (frontText back ++ (l.last.text ++ rest))) := by
      simp [text, hfront, frontText, he]
    have hle := Nesting.length_before_le (by decide) htext (hy.trans (List.prefix_append y _)) htop
    have hlength := congrArg List.length he
    rw [hbefore, hfront] at hle
    simp only [frontText, List.flatMap_append, List.flatMap_cons, List.length_append, List.length_cons] at hle hlength
    omega

theorem endsList_of_pieces : l.last.EndsList rest := by
  have hbefore := before_of_pieces hpieces
  have hbalanced := balanced_of_pieces hpieces (List.append_nil l.front).symm
  have hout := (balanced_frontText_iff l.front).2 hbalanced
  refine fun i _ => ⟨fun hword => ?_, fun hcomma => ?_⟩
  · obtain ⟨x, y, he, rfl, hy, hx⟩ := hword.exists_append (by decide)
    have hle := length_le_of_word hbefore hout he hx hy
    rw [List.length_append] at hle
    omega
  · obtain ⟨x, y, he, rfl, ⟨z, rfl⟩, hx⟩ := hcomma.exists_append (by decide)
    obtain ⟨left, hleft⟩ := exists_rest hbefore
    rcases Text.append_eq_append_cons (hleft.symm.trans he) with ⟨w, hw, -⟩ | ⟨w, rfl, hw⟩
    · -- the comma is read, so it is no place to cut at
      have hinside := (isCut_texts hpieces).inside (l.front.map Base.text) x w [] (by rw [hw])
      rw [State.run_append, Bool.eq_false_iff, Ne, atTop_balanced hbalanced] at hinside
      exact absurd hx hinside
    · -- it is left out, so the list has ended before it
      have htext : l.text ++ rest = Nesting.before Delimiters.grouping " where " (l.text ++ rest) ++ left := by
        rw [hbefore, text, List.append_assoc, hleft]
        simp
      obtain ⟨hword, htop⟩ := Nesting.needle_of_before (by decide) htext (by simp [hw])
      rw [hbefore, State.run_append, atTop_balanced hout] at htop
      have hpos : w ≠ [] := by
        rintro rfl
        rw [hw] at hword
        exact not_isPrefix_cons (by decide) _ hword
      refine ⟨(l.last.opening ++ tail).length, ?_, .of_append hleft hword htop⟩
      have hlength : 0 < w.length := List.length_pos_iff.2 hpos
      simp only [List.length_append]
      omega

end Cut

/-- **A list is cut between its bases exactly if it is separated.** -/
theorem isSeparated_iff : l.IsSeparated rest ↔
    ∃ tail, piecesOf (l.text ++ rest) = l.front.map Base.text ++ [l.last.opening ++ tail] := by
  refine ⟨fun h => ?_, fun ⟨tail, hpieces⟩ => ⟨fun b hb => ?_, endsList_of_pieces hpieces⟩⟩
  · obtain ⟨tail, hbefore⟩ := exists_before h
    exact ⟨tail, piecesOf_text hbefore h⟩
  · obtain ⟨front, back, hfront⟩ := List.append_of_mem hb
    exact isEnclosed_of_pieces hpieces hfront

end BaseList

/-! ## What is read -/

/-- what may come behind a list of bases -/
inductive ListEnd : Text → Prop where
  | blanks (after : Text.Blanks) : ListEnd after.1
  | clause (rest : Text) : ListEnd ((" where " : Text) ++ rest)

theorem Base.balanced_opening (b : Base) : opened b.opening = closed b.opening := by
  have hshape := b.shape.shielded (TypeTree.sees_grouping (fun _ _ _ => trivial) b.shape.render)
  have htype : Shielded Delimiters.grouping (fun _ => True) b.typeText :=
    hshape.append (TypeTree.shielded_marksText ⟨trivial, trivial, trivial⟩ (Or.inr trivial))
  exact Nesting.balanced_append (balanced_blanks b.before) (balanced_of_shielded htype)

/-- of each piece the type at its start is read -/
theorem parse_pieces {pieces : List (Base × Text)} (h : ∀ p ∈ pieces, IsTail p.2) :
    (Nesting.tidy (pieces.map fun p => p.1.opening ++ p.2)).map
      (fun base => TypeTree.parse (Outline.baseWithoutArguments base)) = pieces.map fun p => p.1.tree := by
  have htidy : Nesting.tidy (pieces.map fun p => p.1.opening ++ p.2) =
      pieces.map fun p => Text.trim (p.1.opening ++ p.2) := by
    rw [Nesting.tidy, List.map_map]
    refine List.filter_eq_self.2 fun piece hpiece => ?_
    obtain ⟨p, hp, rfl⟩ := List.mem_map.1 hpiece
    simpa using (p.1.parse_piece (h p hp)).1
  rw [htidy, List.map_map]
  exact List.map_congr_left fun p hp => (p.1.parse_piece (h p hp)).2

namespace BaseList

variable {l : BaseList} {rest : Text}

/-- behind a type without arguments, the word that ends the list is met -/
theorem isTail_of_before (h : l.IsSeparated rest) (hr : ListEnd rest) {tail : Text}
    (hbefore : Nesting.before Delimiters.grouping " where " (l.text ++ rest) =
      frontText l.front ++ (l.last.opening ++ tail)) : IsTail tail := by
  obtain ⟨left, hleft⟩ := exists_rest hbefore
  rw [Base.text, List.append_assoc, List.append_assoc, List.append_cancel_left_eq] at hleft
  have htail : tail <+: l.last.tail ++ rest := ⟨left, hleft.symm⟩
  have hblank : ∀ blanks : Text.Blanks, tail <+: blanks.1 → IsTail tail := fun blanks hstart =>
    .blanks ⟨tail, fun c hc => blanks.2 c (hstart.subset hc)⟩
  cases hargs : l.last.arguments with
  | some inner =>
    have htext : l.last.tail ++ rest = '(' :: (inner ++ [')'] ++ l.last.after.1 ++ rest) := by
      simp [Base.tail, groupText, hargs, Nesting.Bracket.opening, Nesting.Bracket.closing]
    rw [htext] at htail
    rcases List.prefix_cons_iff.1 htail with rfl | ⟨more, rfl, -⟩
    · exact .blanks Text.nothing
    · exact .arguments more
  | none =>
    have htext : l.last.tail = l.last.after.1 := by simp [Base.tail, groupText, hargs]
    rw [htext] at htail
    cases hr with
    | blanks after =>
      have hblanks : ∀ c ∈ l.last.after.1 ++ after.1, Text.isBlank c = true := fun c hc =>
        (List.mem_append.1 hc).elim (l.last.after.2 c) (after.2 c)
      exact hblank ⟨_, hblanks⟩ htail
    | clause rest =>
      have he : l.last.text ++ ((" where " : Text) ++ rest) =
          (l.last.opening ++ l.last.after.1) ++ ((" where " : Text) ++ rest) := by
        rw [Base.text, htext]
      have hout := Nesting.balanced_append l.last.balanced_opening (balanced_blanks l.last.after)
      have hle := length_le_of_word hbefore (balanced_frontText h.1) he hout (List.prefix_append _ rest)
      rw [List.length_append, List.length_append, Nat.add_le_add_iff_left] at hle
      exact hblank l.last.after (List.prefix_of_prefix_length_le htail (List.prefix_append _ _) hle)

/-- **The types of a separated list are read**, whatever arguments its bases pass. -/
theorem baseTypes_text (h : l.IsSeparated rest) (hr : ListEnd rest) :
    Outline.baseTypes (l.text ++ rest) = l.trees := by
  obtain ⟨tail, hbefore⟩ := exists_before h
  have hpieces : piecesOf (l.text ++ rest) =
      (l.front.map (fun b => (b, b.tail)) ++ [(l.last, tail)]).map fun p => p.1.opening ++ p.2 := by
    rw [piecesOf_text hbefore h, List.map_append, List.map_map]
    rfl
  have htails : ∀ p ∈ l.front.map (fun b => (b, b.tail)) ++ [(l.last, tail)], IsTail p.2 := by
    intro p hp
    rcases List.mem_append.1 hp with hp | hp
    · obtain ⟨b, -, rfl⟩ := List.mem_map.1 hp
      exact b.isTail_tail
    · obtain rfl := List.mem_singleton.1 hp
      exact isTail_of_before h hr hbefore
  have hread : ∀ text, Outline.baseTypes text =
      ((Nesting.tidy (piecesOf text)).map fun base => TypeTree.parse (Outline.baseWithoutArguments base)).filter
        (!Outline.isRootBase ·) := fun _ => rfl
  rw [hread, hpieces, parse_pieces htails, List.map_append, List.map_map, trees, List.map_append]
  rfl

end BaseList

end ClassAtlas.Signature
