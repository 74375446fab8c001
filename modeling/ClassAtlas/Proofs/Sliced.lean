/-
Reading a class by byte offsets.

The library reads a line by cutting it in two. The same can be read by byte offsets into the line: a search gives an
offset, and the line is sliced there or right behind, as far as an offset that another search gave. The readers of this
module do so. In each of them a slice that is out of bounds, or that cuts a character, is an error that ends the
reading.

No slice is ever an error, and what is read is what the library reads (`ofLines_eq`, `insideTuple_eq`). A search never
leaves the text behind its start, so the ends of a slice are in order; and the characters that the readers step over
have one byte, so the offset right behind one is a boundary again. One slice is not made at a searched offset: a
modifier is cut off by its length, which is right because blanks before it are gone by then
(`trimStart_of_dropAttributes?`).
-/
import Mathlib.Data.List.DropRight
import ClassAtlas.Proofs.DeclarationLine
import ClassAtlas.Proofs.Member
import ClassAtlas.Proofs.Offset
import ClassAtlas.Proofs.TypeTree.NominalName

namespace ClassAtlas.Sliced

open Nesting (Delimiters FindsFirst offset? offsetWhere? places)
open Text (BadSlice IsBoundary StandsAt byteLength offsetOf? slice sliceTo)

/-- a reading that ends at the first slice that cannot be taken -/
abbrev Reading (α : Type) := Except BadSlice α

@[simp] theorem ok_bind {α β : Type} (a : α) (f : α → Reading β) : (Except.ok a >>= f) = f a := rfl

/-! ## Types -/

/-- the inside of a tuple: the opening parenthesis closes at the very end -/
def insideTuple (expr : Text) : Reading (Option Text) :=
  if expr.head? ≠ some '(' ∨ expr.getLast? ≠ some ')' ∨ byteLength expr < 2 then .ok none
  else
    match offset? Delimiters.round [')'] expr 1 with
    | none => .ok none
    | some close => if close = byteLength expr - 1 then (slice expr 1 close).map some else .ok none

/-- a base without the arguments for its constructor -/
def baseWithoutArguments (base : Text) : Reading Text :=
  match offset? Delimiters.angle ['('] base 0 with
  | some opening => (slice base 0 opening).map Text.trim
  | none => .ok base

theorem byteLength_parentheses (inner after : Text) :
    byteLength ('(' :: (inner ++ ')' :: after)) = byteLength inner + byteLength after + 2 := by
  have hopening : '('.utf8Size = 1 := rfl
  have hclosing : ')'.utf8Size = 1 := rfl
  rw [Text.byteLength_cons, Text.byteLength_append, Text.byteLength_cons]
  omega

theorem insideTuple_eq (expr : Text) : insideTuple expr = .ok (TypeTree.insideTuple? expr) := by
  unfold insideTuple
  split
  · -- what is no tuple at a first glance is none
    rename_i houtside
    refine congrArg Except.ok (Option.eq_none_iff_forall_ne_some.2 fun inner hinner => ?_).symm
    obtain ⟨rfl, -⟩ := TypeTree.insideTuple?_eq_some_iff.1 hinner
    rcases houtside with h | h | h
    · exact h rfl
    · exact h List.getLast?_concat
    · have hlength := byteLength_parentheses inner []
      rw [List.cons_append] at h
      omega
  · rename_i hinside
    obtain ⟨hhead, -, -⟩ := by simpa only [not_or, not_not] using hinside
    obtain ⟨rest, rfl⟩ := List.head?_eq_some_iff.1 hhead
    rw [Nesting.offset?_cons rfl, TypeTree.insideTuple?]
    cases hcut : Nesting.cut? Delimiters.round [')'] rest with
    | none => rfl
    | some p =>
      obtain ⟨inner, b⟩ := p
      obtain ⟨after, rfl, rfl⟩ := Nesting.exists_cons_of_cut? hcut
      -- the closing parenthesis is the last character if nothing stands behind it
      have hlast : 1 + byteLength inner = byteLength ('(' :: (inner ++ ')' :: after)) - 1 ↔ after = [] := by
        rw [byteLength_parentheses, ← Text.byteLength_eq_zero]
        omega
      simp only [Option.map_some, hlast]
      cases after with
      | nil =>
        have hslice : slice ('(' :: (inner ++ [')'])) 1 (1 + byteLength inner) = .ok inner := by
          have h := Text.slice_append ['('] inner [')']
          rwa [Text.byteLength_append] at h
        rw [if_pos rfl, hslice]
        rfl
      | cons c after => rfl

theorem baseWithoutArguments_eq (base : Text) :
    baseWithoutArguments base = .ok (Outline.baseWithoutArguments base) := by
  have hoffset : offset? Delimiters.angle ['('] base 0 = _ := Nesting.offset?_append _ _ [] base
  rw [baseWithoutArguments, hoffset, Outline.baseWithoutArguments]
  cases hcut : Nesting.cut? Delimiters.angle ['('] base with
  | none => rfl
  | some p =>
    have hslice : slice base 0 (byteLength [] + byteLength p.1) = .ok p.1 := by
      rw [Nesting.cut?_append hcut, ← Text.byteLength_append]
      exact Text.slice_append [] p.1 p.2
    simp only [Option.map_some, hslice]
    rfl

/-! ## Parameters -/

/-- the text after the attributes that it starts with; none if one of them is not closed -/
def dropAttributes (s : Text) : Reading (Option Text) :=
  if s.head? = some '[' then
    match offset? Delimiters.box [']'] s 1 with
    | none => .ok none
    | some close =>
      match _h : sliceTo s (close + 1) none with
      | .ok after => dropAttributes (Text.trimStart after)
      | .error e => .error e
  else .ok (some s)
termination_by s.length
decreasing_by
  have h1 := Text.length_lt_of_slice _h (Nat.succ_pos close)
  have h2 := Text.length_trimStart_le after
  omega

/-- the text without the parameter modifiers that it starts with. The word is looked for behind blanks, but as many
bytes as it has are cut off from the very start. -/
def dropModifiers (s : Text) : Reading Text :=
  let word := Outline.firstWord (Text.trimStart s)
  if _hw : Vocabulary.isParameterWord word = true then
    match _h : sliceTo s (byteLength word) none with
    | .ok rest => dropModifiers (Text.trimStart rest)
    | .error e => .error e
  else .ok s
termination_by s.length
decreasing_by
  have hpos : 0 < byteLength word := by
    refine Nat.pos_of_ne_zero fun he => ?_
    rw [Text.byteLength_eq_zero.1 he] at _hw
    exact absurd _hw (by decide)
  have h1 := Text.length_lt_of_slice _h hpos
  have h2 := Text.length_trimStart_le rest
  omega

/-- the type of a parameter -/
def typeOfParameter (parameter : Text) : Reading (Option Text) := do
  match ← dropAttributes (Text.trim parameter) with
  | none => return none
  | some rest =>
    let rest ← dropModifiers rest
    let type ← sliceTo rest 0 (offsetWhere? Delimiters.grouping Text.isBlank rest 0)
    return if (Text.trim type).isEmpty then none else some (Text.trim type)

/-- the types of a list of parameters -/
def parameterTypes (list : Text) : Reading (List TypeTree) := do
  let types ← (Nesting.split Delimiters.all ',' list).mapM typeOfParameter
  return (types.filterMap id).map TypeTree.parse

/-- the types of the parameters whose list opens at the byte offset -/
def parametersFrom (line : Text) (opening : Nat) : Reading (List TypeTree) := do
  let close := offset? (Delimiters.grouping ++ Delimiters.literals) [')'] line (opening + 1)
  parameterTypes (← sliceTo line (opening + 1) close)

theorem dropAttributes_eq (s : Text) : dropAttributes s = .ok (Outline.dropAttributes? s) := by
  fun_induction Outline.dropAttributes? s with
  | case1 rest inner c after hcut ih =>
    have hslice : sliceTo ('[' :: rest) (1 + byteLength inner + 1) none = .ok after := by
      obtain ⟨after', hc, rfl⟩ := Nesting.exists_cons_of_cut? hcut
      obtain ⟨rfl, rfl⟩ := List.cons_eq_cons.1 hc
      have h := Text.sliceTo_end ('[' :: inner ++ [']']) after
      rwa [Text.byteLength_append, Text.byteLength_cons, List.append_assoc] at h
    rw [dropAttributes, if_pos List.head?_cons, Nesting.offset?_cons rfl, hcut]
    dsimp only [Option.map_some]
    split
    · rename_i rest' h
      rw [← ih, Except.ok.inj (hslice.symm.trans h)]
    · rename_i h
      exact absurd (hslice.symm.trans h) (by simp)
  | case2 rest h =>
    have hcut : Nesting.cut? Delimiters.box [']'] rest = none := by
      refine Option.eq_none_iff_forall_ne_some.2 fun p hp => ?_
      obtain ⟨after, hb, -⟩ := Nesting.exists_cons_of_cut? hp
      exact h p.1 ']' after (by rw [hp, ← hb])
    rw [dropAttributes, if_pos List.head?_cons, Nesting.offset?_cons rfl, hcut]
    rfl
  | case3 s h =>
    have hhead : ¬ s.head? = some '[' := fun he => by
      obtain ⟨rest, rfl⟩ := List.head?_eq_some_iff.1 he
      exact h rest rfl
    rw [dropAttributes, if_neg hhead]

/-- attributes leave no blanks before the text that follows them -/
theorem trimStart_of_dropAttributes? {s rest : Text} (hs : Text.trimStart s = s)
    (h : Outline.dropAttributes? s = some rest) : Text.trimStart rest = rest := by
  fun_induction Outline.dropAttributes? s with
  | case1 _ _ _ after _ ih => exact ih (List.dropWhile_idempotent _ _) h
  | case2 => contradiction
  | case3 s => rwa [← Option.some.inj h]

/-- a modifier can be cut off by its length, for no blanks stand before it -/
theorem dropModifiers_eq {s : Text} (hs : Text.trimStart s = s) :
    dropModifiers s = .ok (Outline.dropModifiers s) := by
  fun_induction Outline.dropModifiers s with
  | case1 s hword ih =>
    have hslice : sliceTo s (byteLength (Outline.firstWord s)) none = .ok (s.drop (Outline.firstWord s).length) := by
      obtain ⟨rest, hrest⟩ : Outline.firstWord s <+: s := List.takeWhile_prefix _
      generalize Outline.firstWord s = word at hrest
      rw [← hrest, List.drop_left]
      exact Text.sliceTo_end word rest
    rw [dropModifiers, hs, dif_pos hword]
    split
    · rename_i rest h
      rw [← ih (List.dropWhile_idempotent _ _), Except.ok.inj (hslice.symm.trans h)]
    · rename_i h
      exact absurd (hslice.symm.trans h) (by simp)
  | case2 s hword =>
    rw [dropModifiers, hs, dif_neg hword]

theorem typeOfParameter_eq (parameter : Text) :
    typeOfParameter parameter = .ok (Outline.typeOfParameter? parameter) := by
  rw [typeOfParameter, dropAttributes_eq, Outline.typeOfParameter?]
  cases hattributes : Outline.dropAttributes? (Text.trim parameter) with
  | none => rfl
  | some rest =>
    have hrest := trimStart_of_dropAttributes? (Text.trimStart_trim parameter) hattributes
    have hslice : ∀ s, sliceTo s 0 (offsetWhere? Delimiters.grouping Text.isBlank s 0) = .ok (Outline.leadingType s) :=
      fun s => Nesting.sliceTo_offsetFrom? Nesting.cutFrom_append [] s
    simp only [ok_bind, dropModifiers_eq hrest, hslice]
    rfl

theorem parameterTypes_eq (list : Text) : parameterTypes list = .ok (Outline.parameterTypes list) := by
  have htype : typeOfParameter = fun parameter => pure (Outline.typeOfParameter? parameter) := funext typeOfParameter_eq
  rw [parameterTypes, htype, List.mapM_pure, pure_bind, List.filterMap_map]
  rfl

/-- a list of parameters is read from its parenthesis on, wherever that stands on the line -/
theorem parametersFrom_eq (a b : Text) :
    parametersFrom (a ++ '(' :: b) (byteLength a) = .ok (Outline.parametersAfter b) := by
  have hline : a ++ '(' :: b = (a ++ ['(']) ++ b := by simp
  have hbehind : byteLength a + 1 = byteLength (a ++ ['(']) := (Text.byteLength_append a ['(']).symm
  rw [parametersFrom, hline, hbehind, Nesting.sliceTo_offset?]
  exact parameterTypes_eq _

/-! ## Headers -/

/-- where the parts of a declaration stand, as byte offsets into its line -/
structure Landmarks where
  afterName : Nat
  colon : Option Nat
  /-- where the body opens, or the end of the line -/
  brace : Nat

namespace Landmarks

/-- the landmarks behind the name of the class -/
def locate (line : Text) (afterName : Nat) : Reading Landmarks := do
  let rest ← sliceTo line afterName none
  let brace := match offsetOf? '{' rest with
    | some i => i + afterName
    | none => byteLength line
  let colon := (offset? Delimiters.grouping [':'] line afterName).filter (· < brace)
  return ⟨afterName, colon, brace⟩

/-- the bases of the class; none without a colon -/
def bases (l : Landmarks) (line : Text) : Reading (Option (List TypeTree)) :=
  match l.colon with
  | none => .ok none
  | some colon => do
    let list ← slice line (colon + 1) l.brace
    let list ← sliceTo list 0 (offset? Delimiters.grouping " where " list 0)
    let bases ← (Nesting.split Delimiters.grouping ',' list).mapM baseWithoutArguments
    return some ((bases.map TypeTree.parse).filter (!Outline.isRootBase ·))

/-- the parameter types of a primary constructor -/
def primaryParameters (l : Landmarks) (line : Text) : Reading (Option (List TypeTree)) := do
  let limit := min (l.colon.getD l.brace) l.brace
  match offsetOf? '(' (← slice line l.afterName limit) with
  | none => return none
  | some opening =>
    let parameters ← parametersFrom line (opening + l.afterName)
    return some (parameters.filter (!Outline.isRootBase ·))

end Landmarks

/-- the bases and the primary constructor that stand behind the name of a class -/
def header (line : Text) (afterName : Nat) : Reading (Option (List TypeTree) × Option (List TypeTree)) := do
  let l ← Landmarks.locate line afterName
  return (← l.bases line, ← l.primaryParameters line)

/-- the landmarks of a line whose class name ends behind `a`, by the cuts of the library -/
def landmarks (a b : Text) : Landmarks where
  afterName := byteLength a
  colon := (Outline.colonCut? b).map fun p => byteLength (a ++ p.1)
  brace := byteLength (a ++ Outline.headerOf b)

theorem headerOf_isPrefix (b : Text) : Outline.headerOf b <+: b := List.takeWhile_prefix _

theorem beforeColon_isPrefix (b : Text) : Outline.beforeColon b <+: Outline.headerOf b := by
  unfold Outline.beforeColon
  split
  · rename_i hcut
    exact ⟨_, (Nesting.cut?_append hcut).symm⟩
  · exact List.prefix_rfl

theorem locate_eq (a b : Text) : Landmarks.locate (a ++ b) (byteLength a) = .ok (landmarks a b) := by
  have hbrace : (match offsetOf? '{' b with
      | some i => i + byteLength a
      | none => byteLength (a ++ b)) = byteLength (a ++ Outline.headerOf b) := by
    by_cases h : '{' ∈ b
    · obtain ⟨x, y, rfl, hx⟩ := List.eq_append_cons_of_mem h
      have hheader : Outline.headerOf (x ++ '{' :: y) = x :=
        Text.takeWhile_append_cons (fun c hc => bne_iff_ne.2 fun he => hx (he ▸ hc)) (bne_self_eq_false _)
      rw [Text.offsetOf?_append_cons hx, hheader, Text.byteLength_append a x]
      exact Nat.add_comm _ _
    · have hheader : Outline.headerOf b = b :=
        List.takeWhile_eq_self_iff.2 fun c hc => bne_iff_ne.2 fun he => h (he ▸ hc)
      rw [Text.offsetOf?_eq_none h, hheader]
  have hcolon : (offset? Delimiters.grouping [':'] (a ++ b) (byteLength a)).filter
      (· < byteLength (a ++ Outline.headerOf b)) = (Outline.colonCut? b).map fun p => byteLength (a ++ p.1) := by
    obtain ⟨rest, hrest⟩ := headerOf_isPrefix b
    have h := Nesting.filter_offset? Delimiters.grouping ':' a (Outline.headerOf b) rest
    rwa [hrest] at h
  rw [Landmarks.locate, Text.sliceTo_end, ok_bind, hbrace]
  dsimp only
  rw [hcolon]
  rfl

theorem bases_eq (a b : Text) : (landmarks a b).bases (a ++ b) = .ok (Outline.basesOf? b) := by
  rw [Landmarks.bases, landmarks, Outline.basesOf?]
  cases hcut : Outline.colonCut? b with
  | none => rfl
  | some p =>
    obtain ⟨list, hlist, hheader⟩ := Nesting.exists_cons_of_cut? hcut
    have hslice : slice (a ++ b) (byteLength (a ++ p.1) + 1) (byteLength (a ++ Outline.headerOf b)) = .ok list := by
      obtain ⟨rest, hrest⟩ := headerOf_isPrefix b
      have h := Text.slice_append (a ++ p.1 ++ [':']) list rest
      have hstop : a ++ p.1 ++ [':'] ++ list = a ++ Outline.headerOf b := by rw [hheader]; simp
      rw [hstop, List.append_assoc, hrest] at h
      rwa [Text.byteLength_append] at h
    have hbase : baseWithoutArguments = fun base => pure (Outline.baseWithoutArguments base) :=
      funext baseWithoutArguments_eq
    have hwhere : sliceTo list 0 (offset? Delimiters.grouping " where " list 0) = _ :=
      Nesting.sliceTo_offset? Delimiters.grouping " where " [] list
    simp only [Option.map_some, hslice, ok_bind, hwhere, hbase, List.mapM_pure, pure_bind, List.map_map, hlist]
    rfl

theorem primaryParameters_eq (a b : Text) :
    (landmarks a b).primaryParameters (a ++ b) = .ok (Outline.primaryParameters? b) := by
  have hlimit : min ((landmarks a b).colon.getD (landmarks a b).brace) (landmarks a b).brace =
      byteLength (a ++ Outline.beforeColon b) := by
    have hcolon : (landmarks a b).colon.getD (landmarks a b).brace = byteLength (a ++ Outline.beforeColon b) := by
      rw [landmarks, Outline.beforeColon]
      cases Outline.colonCut? b <;> rfl
    rw [hcolon]
    exact Nat.min_eq_left (Text.byteLength_mono ((List.prefix_append_right_inj a).2 (beforeColon_isPrefix b)))
  obtain ⟨rest, hrest⟩ := (beforeColon_isPrefix b).trans (headerOf_isPrefix b)
  have hslice : slice (a ++ b) (byteLength a) (byteLength (a ++ Outline.beforeColon b)) =
      .ok (Outline.beforeColon b) := by
    have h := Text.slice_append a (Outline.beforeColon b) rest
    rwa [List.append_assoc, hrest] at h
  rw [Landmarks.primaryParameters, hlimit, show (landmarks a b).afterName = byteLength a from rfl, hslice, ok_bind,
    Outline.primaryParameters?]
  by_cases h : '(' ∈ Outline.beforeColon b
  · obtain ⟨x, y, hxy, hx⟩ := List.eq_append_cons_of_mem h
    have hb : b = x ++ '(' :: (y ++ rest) := by rw [← hrest, hxy]; simp
    have hparameters : parametersFrom (a ++ b) (byteLength x + byteLength a) =
        .ok (Outline.parametersAfter (y ++ rest)) := by
      have h := parametersFrom_eq (a ++ x) (y ++ rest)
      rwa [List.append_assoc, ← hb, Text.byteLength_append, Nat.add_comm] at h
    have hsplit : Text.splitFirst? '(' b = some (x, y ++ rest) := by
      rw [hb]
      exact Text.splitFirst?_append_cons hx
    rw [if_pos (List.contains_iff_mem.2 h), hxy, Text.offsetOf?_append_cons hx, hsplit]
    dsimp only
    rw [hparameters]
    rfl
  · rw [Text.offsetOf?_eq_none h, if_neg (by simpa using h)]
    rfl

theorem header_eq (a b : Text) :
    header (a ++ b) (byteLength a) = .ok (Outline.basesOf? b, Outline.primaryParameters? b) := by
  rw [header, locate_eq, ok_bind, bases_eq, ok_bind, primaryParameters_eq]
  rfl

/-! ## Classes -/

/-- the method on a line; its match ends right behind the parenthesis that opens the parameters -/
def method (line : Text) : Reading (Option Method) :=
  match Outline.methodPattern.first? line with
  | none => .ok none
  | some m =>
    if Vocabulary.isNonTypeWord m.value then .ok none
    else do
      let parameters ← parametersFrom line (byteLength m.taken - 1)
      return some ⟨Outline.resultType? m.value, parameters⟩

/-- the constructor of the class on a line -/
def constructor (className line : Text) : Reading (Option Constructor) :=
  match Outline.constructorPattern.first? line with
  | none => .ok none
  | some m =>
    if m.value = className then do
      let parameters ← parametersFrom line (byteLength m.taken - 1)
      return some ⟨className, parameters⟩
    else .ok none

/-- what one line declares -/
def declaredOn (className line : Text) : Reading Outline.Declared := do
  let method ← method line
  let constructor ← if method.isSome then pure none else constructor className line
  return ⟨Outline.memberType? line, method, constructor⟩

/-- the outline of the class that the first line declares; none if it declares no class -/
def ofLines : List Text → Reading (Option Outline)
  | [] => .ok none
  | declaration :: body =>
    match Source.classMatch? declaration with
    | none => .ok none
    | some found => do
      let className := found.value
      let text := List.intercalate ['\n'] (declaration :: body)
      let (bases, primary) ← header declaration (byteLength declaration - byteLength found.rest)
      let declared ← body.mapM (declaredOn className)
      return some {
        name := className
        bases := bases
        constructors :=
          (primary.map (Constructor.mk className)).toList ++ declared.filterMap Outline.Declared.constructor
        methods := declared.filterMap Outline.Declared.method
        memberTypes := declared.filterMap Outline.Declared.memberType
        created := Outline.createdIn text
        called := Outline.calledIn text }

/-- what stands behind the name of a declared class is the end of its line -/
theorem exists_append_of_classMatch? {line : Text} {found : Match Text} (h : Source.classMatch? line = some found) :
    ∃ before, line = before ++ found.rest := by
  obtain ⟨p, hp, rfl⟩ := Option.map_eq_some_iff.1 h
  obtain ⟨a, b, rfl, hfirst, -⟩ := Pattern.mem_atWordStarts (List.mem_of_head? hp)
  obtain ⟨gap, rfl, -⟩ := Source.mem_classPattern (Pattern.mem_of_first? hfirst)
  exact ⟨a ++ (("class" : Text) ++ gap ++ p.2.value), (List.append_assoc _ _ _).symm⟩

/-- the parameters behind a match that ends right behind their parenthesis -/
theorem parametersFrom_taken {p : Pattern Text} (hp : Pattern.EndsBehind '(' p) {line : Text} {m : Match Text}
    (h : p.first? line = some m) :
    parametersFrom line (byteLength m.taken - 1) = .ok (Outline.parametersAfter m.rest) := by
  obtain ⟨before, htaken, rfl⟩ := hp _ _ _ _ (Pattern.mem_of_first? h)
  have hopening : byteLength m.taken - 1 = byteLength before := by
    rw [htaken, Text.byteLength_append]
    rfl
  rw [hopening, parametersFrom_eq]

theorem method_eq (line : Text) : method line = .ok (Outline.method? line) := by
  rw [method, Outline.method?]
  cases h : Outline.methodPattern.first? line with
  | none => rfl
  | some m =>
    dsimp only
    rw [parametersFrom_taken Outline.endsBehind_methodPattern h]
    by_cases hword : Vocabulary.isNonTypeWord m.value = true <;> simp [hword]

theorem constructor_eq (className line : Text) :
    constructor className line = .ok (Outline.constructor? className line) := by
  rw [constructor, Outline.constructor?]
  cases h : Outline.constructorPattern.first? line with
  | none => rfl
  | some m =>
    dsimp only
    rw [parametersFrom_taken Outline.endsBehind_constructorPattern h]
    by_cases hname : m.value = className <;> simp [hname]

theorem declaredOn_eq (className line : Text) :
    declaredOn className line = .ok (Outline.declaredOn className line) := by
  rw [declaredOn, method_eq, ok_bind, constructor_eq, Outline.declaredOn]
  cases Outline.method? line <;> rfl

/-- **Reading by byte offsets takes all its slices, and gives the same outline.** -/
theorem ofLines_eq (lines : List Text) : ofLines lines = .ok (Outline.ofLines? lines) := by
  cases lines with
  | nil => rfl
  | cons declaration body =>
    rw [ofLines, Outline.ofLines?]
    cases h : Source.classMatch? declaration with
    | none => rfl
    | some found =>
      obtain ⟨before, rfl⟩ := exists_append_of_classMatch? h
      have hafter : byteLength (before ++ found.rest) - byteLength found.rest = byteLength before := by
        rw [Text.byteLength_append, Nat.add_sub_cancel]
      have hdeclared : declaredOn found.value = fun line => pure (Outline.declaredOn found.value line) :=
        funext (declaredOn_eq found.value)
      simp only [hafter, header_eq, ok_bind, hdeclared, List.mapM_pure, pure_bind]
      rfl

/-- **What a search gives can be sliced at.** A search for a text that is not empty, or for a character that passes a
test, gives the first of its places. The readers slice at these offsets and right behind them. A slice can be taken
exactly if its ends are boundaries in order; every reader takes all its slices, on every line, and reads what the
library reads. -/
theorem searches_sliceable :
    (∀ (counted : Delimiters) (needle text : Text) (start : Nat), needle ≠ [] →
      FindsFirst (places counted (StandsAt needle text) text start) text start (offset? counted needle text start)) ∧
    (∀ (counted : Delimiters) (test : Char → Bool) (text : Text) (start : Nat),
      FindsFirst (places counted (fun i => ∃ c, test c = true ∧ StandsAt [c] text i) text start) text start
        (offsetWhere? counted test text start)) ∧
    (∀ s i j, (∃ piece, slice s i j = .ok piece) ↔ i ≤ j ∧ IsBoundary s i ∧ IsBoundary s j) ∧
    (∀ a b, header (a ++ b) (byteLength a) = .ok (Outline.basesOf? b, Outline.primaryParameters? b)) ∧
    (∀ a b, parametersFrom (a ++ '(' :: b) (byteLength a) = .ok (Outline.parametersAfter b)) ∧
    (∀ parameter, typeOfParameter parameter = .ok (Outline.typeOfParameter? parameter)) ∧
    (∀ base, baseWithoutArguments base = .ok (Outline.baseWithoutArguments base)) ∧
    (∀ expr, insideTuple expr = .ok (TypeTree.insideTuple? expr)) ∧
    ∀ lines, ofLines lines = .ok (Outline.ofLines? lines) := by
  refine ⟨fun counted needle text start hn => ?_, Nesting.findsFirst_offsetWhere?, fun _ _ _ => Text.exists_slice_iff,
    header_eq, parametersFrom_eq, typeOfParameter_eq, baseWithoutArguments_eq, insideTuple_eq, ofLines_eq⟩
  exact Nesting.findsFirst_offset? hn counted text start

/-- a needle and a text with characters of several bytes, and a slice before a parenthesis outside angle brackets -/
theorem searches_sliceable_multibyte :
    ("→x" : Text) ≠ [] ∧ offset? Delimiters.round "→x" "é(→x)→x" 2 = some 8 ∧ IsBoundary "é(→x)→x" 2 ∧
      IsLeast (places Delimiters.round (StandsAt "→x" "é(→x)→x") "é(→x)→x" 2) 8 ∧
      baseWithoutArguments "Bär<(é)> (ß)" = .ok "Bär<(é)>" := by
  obtain ⟨hsearch, -, -, -, -, -, hbase, -⟩ := searches_sliceable
  have hn : ("→x" : Text) ≠ [] := by decide
  have hfound : offset? Delimiters.round "→x" "é(→x)→x" 2 = some 8 := by decide
  obtain ⟨hstart, hleast⟩ := ((hsearch _ _ _ _ hn).some_iff 8).1 hfound
  exact ⟨hn, hfound, hstart, hleast, (hbase _).trans (congrArg Except.ok (by decide))⟩

end ClassAtlas.Sliced
