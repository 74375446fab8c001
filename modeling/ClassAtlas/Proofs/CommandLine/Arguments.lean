/-
Arguments, option by option.

`Spells s value unit` lists the ways to write an option with its value: the value as the next argument, after an equals
sign, or directly after a letter. Arguments are accepted exactly if they are such units and switches one after another,
each of them accepted by the draft so far, with or without `--` at the end (`readArguments_eq_ok_iff`).

The first argument of a unit looks like an option, and a value that stands alone never does. So where accepted arguments
have something that looks like an option, a unit starts (`Reads.split`). Taking an output option out of them changes
nothing but the output (`AddsOutput.read_eq`), and an output always comes from such an option (`exists_addsOutput`).
-/
import ClassAtlas.CommandLine.Options
import ClassAtlas.Proofs.Text
import ClassAtlas.Proofs.Workspace.Tree

namespace ClassAtlas.CommandLine

namespace Flag

theorem ofLong?_eq_some_iff {name : Text} {f : Flag} : ofLong? name = some f ↔ (name, f) ∈ longNames :=
  find?_fst_eq_some_iff (by decide)

theorem ofLetter?_eq_some_iff {c : Char} {f : Flag} : ofLetter? c = some f ↔ (c, f) ∈ letters :=
  find?_fst_eq_some_iff (by decide)

theorem equals_notMem_of_mem_longNames {name : Text} {f : Flag} (h : (name, f) ∈ longNames) : '=' ∉ name :=
  (by decide : ∀ e ∈ longNames, '=' ∉ e.1) _ h

theorem ne_hyphen_of_mem_letters {c : Char} {f : Flag} (h : (c, f) ∈ letters) : c ≠ '-' :=
  (by decide : ∀ e ∈ letters, e.1 ≠ '-') _ h

/-- a letter that is a switch stops the reading -/
theorem turnOn_of_mem_letters {c : Char} {s : Switch} (h : (c, switch s) ∈ letters) (d d' : Draft) :
    d.turnOn s ≠ .ok d' := by
  intro hd
  have hs : (c = 'V' ∧ s = .version) ∨ (c = 'h' ∧ s = .help) := by simpa [letters] using h
  obtain ⟨-, rfl⟩ | ⟨-, rfl⟩ := hs
  · cases hd
  · cases hd

end Flag

/-! ## Spellings -/

/-- an argument that names an option, whose value comes after it -/
inductive Names (s : Setting) : Text → Prop
  | long {name : Text} (h : (name, Flag.setting s) ∈ Flag.longNames) : Names s ('-' :: '-' :: name)
  | letter {c : Char} (h : (c, Flag.setting s) ∈ Flag.letters) : Names s ['-', c]

/-- the arguments that give an option this value -/
inductive Spells (s : Setting) (value : Text) : List Text → Prop
  | next {arg : Text} (h : Names s arg) (hvalue : looksLikeOption value = false) : Spells s value [arg, value]
  | equals {arg : Text} (h : Names s arg) : Spells s value [arg ++ '=' :: value]
  | joined {c : Char} (h : (c, Flag.setting s) ∈ Flag.letters) (hvalue : value ≠ []) (hequals : value.head? ≠ some '=') :
      Spells s value ['-' :: c :: value]

theorem map_done_eq_ok {x : Except Stop Draft} {p : Progress} (h : Progress.done <$> x = .ok p) :
    ∃ d, x = .ok d ∧ p = .done d := by
  cases x with
  | error stop => cases h
  | ok d => exact ⟨d, rfl, (Except.ok.inj h).symm⟩

section ReadArgument

variable {d : Draft} {s : Setting} {arg value : Text} {p : Progress}

theorem readArgument_letters {c : Char} (hc : c ≠ '-') (rest : Text) :
    readArgument d ('-' :: c :: rest) = readLetters d (c :: rest) := by
  rw [readArgument]
  exact hc

theorem readArgument_names (h : Names s arg) : readArgument d arg = .ok (.awaiting d s) := by
  cases h with
  | @long name h =>
    rw [readArgument, readLong, Text.splitFirst?_eq_none_iff.2 (Flag.equals_notMem_of_mem_longNames h)]
    dsimp only
    rw [Flag.ofLong?_eq_some_iff.2 h]
  | letter h =>
    rw [readArgument_letters (Flag.ne_hyphen_of_mem_letters h), readLetters, Flag.ofLetter?_eq_some_iff.2 h]

theorem readArgument_equals (h : Names s arg) :
    readArgument d (arg ++ '=' :: value) = Progress.done <$> d.set s value := by
  cases h with
  | @long name h =>
    rw [List.cons_append, List.cons_append, readArgument, readLong,
      Text.splitFirst?_append_cons (Flag.equals_notMem_of_mem_longNames h)]
    dsimp only
    rw [Flag.ofLong?_eq_some_iff.2 h]
  | letter h =>
    rw [List.cons_append, List.cons_append, List.nil_append, readArgument_letters (Flag.ne_hyphen_of_mem_letters h),
      readLetters, Flag.ofLetter?_eq_some_iff.2 h]
    rfl

theorem readArgument_joined {c : Char} (h : (c, Flag.setting s) ∈ Flag.letters) (hvalue : value ≠ [])
    (hequals : value.head? ≠ some '=') : readArgument d ('-' :: c :: value) = Progress.done <$> d.set s value := by
  rw [readArgument_letters (Flag.ne_hyphen_of_mem_letters h), readLetters, Flag.ofLetter?_eq_some_iff.2 h]
  dsimp only
  split
  · exact absurd rfl hvalue
  · exact absurd rfl hequals
  · rfl

end ReadArgument

/-! ## Units -/

/-- a unit of arguments that takes one draft to the next -/
inductive Takes (d : Draft) : List Text → Draft → Prop
  | setting {s : Setting} {value : Text} {unit : List Text} {d' : Draft} (h : Spells s value unit)
      (hset : d.set s value = .ok d') : Takes d unit d'
  | switch {s : Switch} {name : Text} {d' : Draft} (h : (name, Flag.switch s) ∈ Flag.longNames)
      (hturn : d.turnOn s = .ok d') : Takes d ['-' :: '-' :: name] d'

theorem readLong_cases {d : Draft} {body : Text} {p : Progress} (h : readLong d body = .ok p) :
    (∃ s, Names s ('-' :: '-' :: body) ∧ p = .awaiting d s) ∨ ∃ d', p = .done d' ∧ Takes d ['-' :: '-' :: body] d' := by
  unfold readLong at h
  cases hsplit : Text.splitFirst? '=' body with
  | some cut =>
    obtain ⟨name, value⟩ := cut
    obtain rfl := Text.splitFirst?_eq_some hsplit
    rw [hsplit] at h
    dsimp only at h
    cases hflag : Flag.ofLong? name with
    | none =>
      rw [hflag] at h
      cases h
    | some f =>
      rw [hflag] at h
      cases f with
      | switch s => cases h
      | setting s =>
        obtain ⟨d', hset, rfl⟩ := map_done_eq_ok h
        exact .inr ⟨d', rfl, .setting (.equals (.long (Flag.ofLong?_eq_some_iff.1 hflag))) hset⟩
  | none =>
    rw [hsplit] at h
    dsimp only at h
    cases hflag : Flag.ofLong? body with
    | none =>
      rw [hflag] at h
      cases h
    | some f =>
      rw [hflag] at h
      cases f with
      | switch s =>
        obtain ⟨d', hturn, rfl⟩ := map_done_eq_ok h
        exact .inr ⟨d', rfl, .switch (Flag.ofLong?_eq_some_iff.1 hflag) hturn⟩
      | setting s =>
        obtain rfl := Except.ok.inj h
        exact .inl ⟨s, .long (Flag.ofLong?_eq_some_iff.1 hflag), rfl⟩

theorem readLetters_cases {d : Draft} {c : Char} {rest : Text} {p : Progress} (h : readLetters d (c :: rest) = .ok p) :
    (∃ s, Names s ('-' :: c :: rest) ∧ p = .awaiting d s) ∨ ∃ d', p = .done d' ∧ Takes d ['-' :: c :: rest] d' := by
  rw [readLetters] at h
  split at h
  · cases h
  · rename_i s hflag
    cases hturn : d.turnOn s with
    | error stop =>
      rw [hturn] at h
      cases h
    | ok d' => exact absurd hturn (Flag.turnOn_of_mem_letters (Flag.ofLetter?_eq_some_iff.1 hflag) d d')
  · rename_i s hflag
    have hmem := Flag.ofLetter?_eq_some_iff.1 hflag
    split at h
    · obtain rfl := Except.ok.inj h
      exact .inl ⟨s, .letter hmem, rfl⟩
    · rename_i value
      obtain ⟨d', hset, rfl⟩ := map_done_eq_ok h
      exact .inr ⟨d', rfl, .setting (.equals (.letter hmem)) hset⟩
    · rename_i hvalue hequals
      obtain ⟨d', hset, rfl⟩ := map_done_eq_ok h
      refine .inr ⟨d', rfl, .setting (.joined hmem hvalue ?_) hset⟩
      intro hhead
      obtain ⟨value, rfl⟩ := List.head?_eq_some_iff.1 hhead
      exact hequals value rfl

/-- an argument names an option that waits for its value, or is a unit -/
theorem readArgument_cases {d : Draft} {arg : Text} {p : Progress} (h : readArgument d arg = .ok p) :
    (∃ s, Names s arg ∧ p = .awaiting d s) ∨ ∃ d', p = .done d' ∧ Takes d [arg] d' := by
  unfold readArgument at h
  split at h
  · exact readLong_cases h
  · exact readLetters_cases h
  · cases h

section Units

variable {d d' : Draft} {s : Setting} {arg value : Text} {unit : List Text}

theorem ne_endMark_of_readArgument {p : Progress} (h : readArgument d arg = .ok p) : arg ≠ endMark := by
  intro harg
  rw [harg] at h
  cases h

theorem readArguments_named (h : readArgument d arg = .ok (.awaiting d s)) (hvalue : looksLikeOption value = false)
    (rest : List Text) :
    readArguments d (arg :: value :: rest) = d.set s value >>= (readArguments · rest) := by
  rw [readArguments, if_neg (ne_endMark_of_readArgument h), h]
  simp only [hvalue]
  cases d.set s value <;> rfl

theorem readArguments_unit {x : Except Stop Draft} (harg : arg ≠ endMark) (h : readArgument d arg = Progress.done <$> x)
    (rest : List Text) : readArguments d (arg :: rest) = x >>= (readArguments · rest) := by
  rw [readArguments, if_neg harg, h]
  cases x <;> rfl

theorem Spells.readArguments_eq (h : Spells s value unit) (d : Draft) (rest : List Text) :
    readArguments d (unit ++ rest) = d.set s value >>= (readArguments · rest) := by
  cases h with
  | next h hvalue => exact readArguments_named (readArgument_names h) hvalue rest
  | @equals arg h =>
    refine readArguments_unit ?_ (readArgument_equals h) rest
    intro hend
    have hmem : '=' ∈ endMark := hend ▸ List.mem_append_right arg List.mem_cons_self
    exact absurd hmem (by decide)
  | joined h hvalue hequals =>
    refine readArguments_unit ?_ (readArgument_joined h hvalue hequals) rest
    intro hend
    exact Flag.ne_hyphen_of_mem_letters h (List.cons.inj (List.cons.inj hend).2).1

theorem Takes.readArguments_eq (h : Takes d unit d') (rest : List Text) :
    readArguments d (unit ++ rest) = readArguments d' rest := by
  cases h with
  | setting h hset =>
    rw [h.readArguments_eq, hset]
    rfl
  | @switch s name _ h hturn =>
    have hread : readArgument d ('-' :: '-' :: name) = .ok (.done d') := by
      rw [readArgument, readLong, Text.splitFirst?_eq_none_iff.2 (Flag.equals_notMem_of_mem_longNames h)]
      dsimp only
      rw [Flag.ofLong?_eq_some_iff.2 h]
      exact congrArg (Progress.done <$> ·) hturn
    exact readArguments_unit (x := .ok d') (ne_endMark_of_readArgument hread) hread rest

/-- a unit starts with something that looks like an option, and nothing else in it does -/
theorem Names.looksLikeOption (h : Names s arg) : looksLikeOption arg = true := by
  cases h <;> rfl

theorem Spells.exists_cons (h : Spells s value unit) :
    ∃ arg rest, unit = arg :: rest ∧ looksLikeOption arg = true ∧ ∀ a ∈ rest, looksLikeOption a = false := by
  cases h with
  | @next arg h hvalue =>
    refine ⟨arg, [value], rfl, h.looksLikeOption, ?_⟩
    intro a ha
    rwa [List.mem_singleton.1 ha]
  | equals h =>
    refine ⟨_, [], rfl, ?_, fun a ha => absurd ha List.not_mem_nil⟩
    cases h <;> rfl
  | joined => exact ⟨_, [], rfl, rfl, fun a ha => absurd ha List.not_mem_nil⟩

theorem Takes.exists_cons (h : Takes d unit d') :
    ∃ arg rest, unit = arg :: rest ∧ ∀ a ∈ rest, looksLikeOption a = false := by
  cases h with
  | setting h =>
    obtain ⟨arg, rest, hunit, -, hrest⟩ := h.exists_cons
    exact ⟨arg, rest, hunit, hrest⟩
  | switch => exact ⟨_, [], rfl, fun a ha => absurd ha List.not_mem_nil⟩

/-- what looks like an option is no part of a unit that starts before it -/
theorem Takes.cut (h : Takes d unit d') (harg : CommandLine.looksLikeOption arg = true) {rest before tail : List Text}
    (heq : unit ++ rest = before ++ arg :: tail) :
    before = [] ∨ ∃ more, before = unit ++ more ∧ rest = more ++ arg :: tail := by
  obtain ⟨first, values, rfl, hvalues⟩ := h.exists_cons
  cases before with
  | nil => exact .inl rfl
  | cons b before =>
    obtain ⟨rfl, hrest⟩ := List.cons.inj heq
    right
    obtain ⟨more, rfl, hmore⟩ | ⟨more, hunit, hmore⟩ := List.append_eq_append_iff.1 hrest
    · exact ⟨more, rfl, hmore⟩
    · cases more with
      | nil => exact ⟨[], by rw [hunit, List.append_nil, List.append_nil], hmore.symm⟩
      | cons m more =>
        -- otherwise it is a value of the unit, which does not look like an option
        obtain ⟨rfl, -⟩ := List.cons.inj hmore
        have hvalue := hvalues arg (hunit ▸ List.mem_append_right before List.mem_cons_self)
        rw [harg] at hvalue
        cases hvalue

end Units

/-! ## Arguments -/

/-- units one after another, and perhaps the mark that ends them -/
inductive Reads : Draft → List Text → Draft → Prop
  | nil (d : Draft) : Reads d [] d
  | ended (d : Draft) : Reads d [endMark] d
  | cons {d d₁ d' : Draft} {unit rest : List Text} (h : Takes d unit d₁) (hrest : Reads d₁ rest d') :
      Reads d (unit ++ rest) d'

section Reads

variable {d d' : Draft} {args : List Text}

theorem reads_of_readArguments (h : readArguments d args = .ok d') : Reads d args d' := by
  fun_induction readArguments d args with
  | case1 d =>
    obtain rfl := Except.ok.inj h
    exact .nil d
  | case2 d rest hrest =>
    obtain rfl := Except.ok.inj h
    obtain rfl := List.isEmpty_iff.1 hrest
    exact .ended d
  | case3 => cases h
  | case4 => cases h
  | case5 d arg rest harg d₁ hread ih =>
    obtain ⟨s, -, hp⟩ | ⟨d₂, hp, htakes⟩ := readArgument_cases hread
    · cases hp
    · obtain rfl := Progress.done.inj hp
      exact .cons htakes (ih h)
  | case6 => cases h
  | case7 => cases h
  | case8 => cases h
  | case9 d arg harg d₁ s hread value rest hvalue d₂ hset ih =>
    obtain ⟨s', hnames, hp⟩ | ⟨d₂, hp, -⟩ := readArgument_cases hread
    · obtain ⟨rfl, rfl⟩ := Progress.awaiting.inj hp
      exact .cons (.setting (.next hnames (Bool.eq_false_iff.2 hvalue)) hset) (ih h)
    · cases hp

theorem Reads.readArguments_eq (h : Reads d args d') : readArguments d args = .ok d' := by
  induction h with
  | nil d => rfl
  | ended d => rfl
  | cons h hrest ih => rw [h.readArguments_eq, ih]

theorem readArguments_eq_ok_iff : readArguments d args = .ok d' ↔ Reads d args d' :=
  ⟨reads_of_readArguments, Reads.readArguments_eq⟩

/-- accepted arguments can be cut before anything that looks like an option -/
theorem Reads.split (h : Reads d args d') {before tail : List Text} {arg : Text} (harg : looksLikeOption arg = true)
    (hargs : args = before ++ arg :: tail) :
    ∃ d₁, readArguments d₁ (arg :: tail) = .ok d' ∧
      ∀ other, readArguments d (before ++ other) = readArguments d₁ other := by
  induction h generalizing before with
  | nil d => simp at hargs
  | ended d =>
    cases before with
    | nil =>
      refine ⟨d, ?_, fun other => rfl⟩
      rw [← List.nil_append (arg :: tail), ← hargs]
      rfl
    | cons b before => simp at hargs
  | @cons d d₁ d' unit rest h hrest ih =>
    obtain rfl | ⟨more, rfl, hmore⟩ := h.cut harg hargs
    · refine ⟨d, ?_, fun other => rfl⟩
      rw [← List.nil_append (arg :: tail), ← hargs, h.readArguments_eq, hrest.readArguments_eq]
    · obtain ⟨d₂, hread, hother⟩ := ih hmore
      refine ⟨d₂, hread, fun other => ?_⟩
      rw [List.append_assoc, h.readArguments_eq, hother]

end Reads

/-! ## The output -/

theorem bind_eq_ok {ε α β : Type} {x : Except ε α} {f : α → Except ε β} {b : β} (h : x >>= f = .ok b) :
    ∃ a, x = .ok a ∧ f a = .ok b := by
  cases x with
  | error e => cases h
  | ok a => exact ⟨a, rfl, h⟩

theorem once_eq_ok {α : Type} {present value result : Option α} (h : once present value = .ok result) :
    present = none ∧ result = value := by
  unfold once at h
  split at h
  · exact ⟨rfl, (Except.ok.inj h).symm⟩
  · cases h

section Output

variable {d d' : Draft} {args unit : List Text} {file : Path}

theorem path?_eq_some {s : Text} {p : Path} (h : path? s = some p) : p = ⟨s⟩ := by
  unfold path? at h
  split at h
  · cases h
  · exact (Option.some.inj h).symm

/-- a value goes to the output, which had none, or leaves the output alone and does not depend on it -/
theorem Draft.set_cases {s : Setting} {value : Text} (h : d.set s value = .ok d') :
    (s = .output ∧ d.output = none ∧ d' = { d with output := some ⟨value⟩ }) ∨
      (s ≠ .output ∧ d'.output = d.output ∧
        ∀ output, Draft.set { d with output := output } s value = .ok { d' with output := output }) := by
  cases s with
  | output =>
    obtain ⟨v, hv, hd⟩ := bind_eq_ok h
    obtain rfl := Except.ok.inj hd
    obtain ⟨hnone, rfl⟩ := once_eq_ok hv
    refine .inl ⟨rfl, hnone, ?_⟩
    cases hpath : path? value with
    | none =>
      rw [hnone, hpath] at hv
      cases hv
    | some p => rw [path?_eq_some hpath]
  | input | format | jobs | verbosity =>
    obtain ⟨v, hv, hd⟩ := bind_eq_ok h
    obtain rfl := Except.ok.inj hd
    refine .inr ⟨nofun, rfl, fun output => ?_⟩
    rw [Draft.set, hv]
    rfl

theorem Takes.output_cases (h : Takes d unit d') :
    (∃ value, Spells .output value unit ∧ d.output = none ∧ d' = { d with output := some ⟨value⟩ }) ∨
      (d'.output = d.output ∧ ∀ output, Takes { d with output := output } unit { d' with output := output }) := by
  cases h with
  | @setting s value _ _ h hset =>
    obtain ⟨rfl, hd, hd'⟩ | ⟨-, hd, hother⟩ := Draft.set_cases hset
    · exact .inl ⟨value, h, hd, hd'⟩
    · exact .inr ⟨hd, fun output => .setting h (hother output)⟩
  | @switch s name _ h hturn =>
    right
    cases s with
    | version => cases hturn
    | help => cases hturn
    | sequential =>
      rw [Draft.turnOn] at hturn
      split at hturn
      · cases hturn
      · rename_i hsequential
        obtain rfl := Except.ok.inj hturn
        exact ⟨rfl, fun output => .switch h (if_neg hsequential)⟩

/-- once there is an output no other comes, and the rest does not depend on it -/
theorem Reads.output_of_some (h : Reads d args d') (hd : d.output = some file) :
    d'.output = some file ∧ ∀ output, Reads { d with output := output } args { d' with output := output } := by
  induction h with
  | nil d => exact ⟨hd, fun output => .nil _⟩
  | ended d => exact ⟨hd, fun output => .ended _⟩
  | cons h hrest ih =>
    obtain ⟨value, -, hnone, -⟩ | ⟨hsame, hother⟩ := h.output_cases
    · rw [hnone] at hd
      cases hd
    · obtain ⟨hd', hrest'⟩ := ih (hsame.trans hd)
      exact ⟨hd', fun output => .cons (hother output) (hrest' output)⟩

/-- an output is one that was there before, or comes from an option -/
theorem Reads.exists_spells (h : Reads d args d') :
    d'.output = d.output ∨ ∃ file before option after, d'.output = some file ∧ args = before ++ option ++ after ∧
      Spells .output file.text option := by
  induction h with
  | nil d => exact .inl rfl
  | ended d => exact .inl rfl
  | @cons d d₁ d' unit rest h hrest ih =>
    obtain ⟨value, hspells, -, rfl⟩ | ⟨hsame, -⟩ := h.output_cases
    · exact .inr ⟨⟨value⟩, [], unit, rest, (hrest.output_of_some rfl).1, rfl, hspells⟩
    · obtain hd | ⟨file, before, option, after, hd, rfl, hspells⟩ := ih
      · exact .inl (hd.trans hsame)
      · exact .inr ⟨file, unit ++ before, option, after, hd, by simp only [List.append_assoc], hspells⟩

theorem Draft.finish_output {o : Options} (h : d.finish = .ok o) (output : Option Path) :
    o.output = d.output ∧ Draft.finish { d with output := output } = .ok { o with output := output } := by
  unfold Draft.finish at h
  split at h
  · cases h
  · rename_i hinput
    obtain rfl := Except.ok.inj h
    refine ⟨rfl, ?_⟩
    unfold Draft.finish
    dsimp only
    rw [hinput]

/-- the arguments are those of `others` with an output option for the file somewhere between them -/
def AddsOutput (file : Path) (others args : List Text) : Prop :=
  ∃ before option after, others = before ++ after ∧ args = before ++ option ++ after ∧ Spells .output file.text option

theorem AddsOutput.read_eq {others : List Text} (h : AddsOutput file others args) {o : Options}
    (ho : Options.read args = .ok o) :
    o.output = some file ∧ Options.read others = .ok { o with output := none } := by
  obtain ⟨before, option, after, rfl, rfl, hspells⟩ := h
  obtain ⟨d, hd, hfinish⟩ := bind_eq_ok ho
  obtain ⟨first, values, hoption, hfirst, -⟩ := hspells.exists_cons
  obtain ⟨d₁, hread, hother⟩ := (readArguments_eq_ok_iff.1 hd).split hfirst
    (show before ++ option ++ after = before ++ first :: (values ++ after) by
      rw [hoption, List.append_assoc, List.cons_append])
  -- from there on the option is read first, and what comes after it is read as it would be without it
  have hread' : d₁.set .output file.text >>= (readArguments · after) = .ok d := by
    rw [← hspells.readArguments_eq, hoption]
    exact hread
  obtain ⟨d₂, hset, hafter⟩ := bind_eq_ok hread'
  obtain ⟨-, hnone, rfl⟩ | ⟨hs, -⟩ := Draft.set_cases hset
  · obtain ⟨houtput, hwithout⟩ := (readArguments_eq_ok_iff.1 hafter).output_of_some rfl
    obtain ⟨ho, hfinish'⟩ := Draft.finish_output hfinish none
    have hd₁ : d₁ = { d₁ with output := none } := by rw [← hnone]
    refine ⟨ho.trans houtput, ?_⟩
    rw [Options.read, hother, hd₁, (hwithout none).readArguments_eq]
    exact hfinish'
  · exact absurd rfl hs

theorem exists_addsOutput {o : Options} (h : Options.read args = .ok o) (ho : o.output = some file) :
    ∃ others, AddsOutput file others args := by
  obtain ⟨d, hd, hfinish⟩ := bind_eq_ok h
  obtain hnone | ⟨f, before, option, after, hf, rfl, hspells⟩ := (readArguments_eq_ok_iff.1 hd).exists_spells
  · rw [(Draft.finish_output hfinish none).1, hnone] at ho
    cases ho
  · rw [(Draft.finish_output hfinish none).1, hf] at ho
    obtain rfl := Option.some.inj ho
    exact ⟨before ++ after, before, option, after, rfl, rfl, hspells⟩

end Output

end ClassAtlas.CommandLine
