/-
What a name means after a sequence of registrations.

The registry answers by keys; the meanings below are said by the registered classes alone. A dotted name means the last
class of that name in that scope. A bare name means the last class of its name in the first scope that has one, where
the scopes are the file's own and then the imported ones, empty ones apart; or else the last class of its name at all,
if that one stands outside any namespace. All other names are external. `resolve?_ofClasses` says that resolution gives
these meanings, and gives nothing exactly where no name is left after the last point.

A class outside any namespace has only its bare name for a key, and every later class of that name takes this key. So it
is visible everywhere only as long as no class of its name is registered after it, in whatever scope
(`resolve?_global_iff`); after that even a file that sees no other class of the name gets an external one.
-/
import ClassAtlas.Proofs.Registry
import ClassAtlas.Resolution

namespace ClassAtlas.Resolution

open Registry (ofClasses ownerOf lastIn lastNamed eq_of_lastIn eq_of_lastNamed lastIn_eq_none lastNamed_eq_none_iff
  lastNamed_of_split lookup?_qualified lookup?_bare)

/-- what the dotted name `scope.last` means -/
def dottedMeaning (cs : List ClassId) (scope last : Text) : ClassId :=
  (if scope = [] then none else lastIn cs scope last).getD ⟨last, scope, externalProject⟩

/-- the last class of that name in the first scope that has one -/
def inFirstScope? (cs : List ClassId) (name fileScope : Text) (imports : List Text) : Option ClassId :=
  ((fileScope :: imports).filter (· ≠ [])).findSome? fun scope => lastIn cs scope name

/-- the last class of that name, if it stands outside any namespace -/
def global? (cs : List ClassId) (name : Text) : Option ClassId := (lastNamed cs name).filter (·.scope = [])

/-- what a bare name means in a file -/
def bareMeaning (cs : List ClassId) (name fileScope : Text) (imports : List Text) : ClassId :=
  ((inFirstScope? cs name fileScope imports).or (global? cs name)).getD ⟨name, unknownScope, externalProject⟩

/-! ## Registered classes as owners -/

theorem owned_ownerOf (c : ClassId) : owned c.name (ownerOf c) = c := rfl

theorem resolveDotted_eq {cs : List ClassId} (h : ∀ c ∈ cs, '.' ∉ c.name) {scope last : Text} (hl : '.' ∉ last) :
    resolveDotted (ofClasses cs) (scope ++ '.' :: last) scope last = dottedMeaning cs scope last := by
  unfold resolveDotted dottedMeaning
  rw [lookup?_qualified h hl]
  by_cases hs : scope = []
  · simp [hs]
  · rw [if_neg hs, if_neg hs]
    cases hc : lastIn cs scope last with
    | none => rfl
    | some c =>
      obtain ⟨-, -, rfl⟩ := eq_of_lastIn hc
      exact owned_ownerOf c

/-- the empty scopes that a file imports hold no key, so they may be left out -/
theorem findSome?_scopes {cs : List ClassId} (h : ∀ c ∈ cs, '.' ∉ c.name) {name : Text} (hn : '.' ∉ name)
    (fileScope : Text) (imports : List Text) :
    ((scopes fileScope imports).findSome? fun scope => (ofClasses cs).lookup? (scope ++ '.' :: name)) =
      (inFirstScope? cs name fileScope imports).map ownerOf := by
  have hskip : ∀ l : List Text, (l.findSome? fun scope => (ofClasses cs).lookup? (scope ++ '.' :: name)) =
      ((l.filter (· ≠ [])).findSome? fun scope => lastIn cs scope name).map ownerOf := by
    intro l
    induction l with
    | nil => rfl
    | cons scope l ih =>
      rw [List.findSome?_cons, lookup?_qualified h hn]
      by_cases hs : scope = []
      · simpa [hs] using ih
      · rw [if_neg hs, List.filter_cons_of_pos (by simpa using hs), List.findSome?_cons]
        cases lastIn cs scope name with
        | none => exact ih
        | some c => rfl
  unfold scopes inFirstScope?
  by_cases hf : fileScope = []
  · simpa [hf] using hskip imports
  · simpa [hf] using hskip (fileScope :: imports)

theorem globalOwner?_eq (cs : List ClassId) {name : Text} (hn : '.' ∉ name) :
    globalOwner? (ofClasses cs) name = (global? cs name).map ownerOf := by
  unfold globalOwner? global?
  rw [lookup?_bare cs hn]
  cases lastNamed cs name with
  | none => rfl
  | some c =>
    rw [Option.map_some, Option.filter_some, Option.filter_some]
    by_cases hs : c.scope = []
    · simp [ownerOf, hs]
    · simp [ownerOf, hs]

theorem name_of_inFirstScope? {cs : List ClassId} {name fileScope : Text} {imports : List Text} {c : ClassId}
    (h : inFirstScope? cs name fileScope imports = some c) : c ∈ cs ∧ c.name = name := by
  obtain ⟨scope, -, hc⟩ := List.exists_of_findSome?_eq_some h
  obtain ⟨hm, -, hn⟩ := eq_of_lastIn hc
  exact ⟨hm, hn⟩

theorem name_of_global? {cs : List ClassId} {name : Text} {c : ClassId} (h : global? cs name = some c) :
    c ∈ cs ∧ c.name = name :=
  eq_of_lastNamed (Option.filter_eq_some_iff.1 h).1

theorem resolveBare_eq {cs : List ClassId} (h : ∀ c ∈ cs, '.' ∉ c.name) {name : Text} (hn : '.' ∉ name)
    (fileScope : Text) (imports : List Text) :
    resolveBare (ofClasses cs) name fileScope imports = bareMeaning cs name fileScope imports := by
  unfold resolveBare bareMeaning
  simp only [findSome?_scopes h hn, globalOwner?_eq cs hn]
  cases hf : inFirstScope? cs name fileScope imports with
  | some c =>
    obtain ⟨-, rfl⟩ := name_of_inFirstScope? hf
    exact owned_ownerOf c
  | none =>
    cases hg : global? cs name with
    | some c =>
      obtain ⟨-, rfl⟩ := name_of_global? hg
      exact owned_ownerOf c
    | none => rfl

/-! ## Meanings are registered classes -/

theorem mem_dottedMeaning (cs : List ClassId) (scope last : Text) :
    dottedMeaning cs scope last ∈ cs ∨ (dottedMeaning cs scope last).project = externalProject := by
  unfold dottedMeaning
  split
  · exact Or.inr rfl
  · cases hc : lastIn cs scope last with
    | none => exact Or.inr rfl
    | some c => exact Or.inl (eq_of_lastIn hc).1

theorem mem_bareMeaning (cs : List ClassId) (name fileScope : Text) (imports : List Text) :
    bareMeaning cs name fileScope imports ∈ cs ∨
      (bareMeaning cs name fileScope imports).project = externalProject := by
  unfold bareMeaning
  cases hf : inFirstScope? cs name fileScope imports with
  | some c => exact Or.inl (name_of_inFirstScope? hf).1
  | none =>
    cases hg : global? cs name with
    | some c => exact Or.inl (name_of_global? hg).1
    | none => exact Or.inr rfl

/-! ## Resolution -/

theorem resolve?_nil (r : Registry) (fileScope : Text) (imports : List Text) :
    resolve? r [] fileScope imports = none := by
  rw [resolve?, Text.splitLast?_eq_none_iff.2 (by simp)]
  rfl

theorem resolve?_endsWithPoint (r : Registry) (scope fileScope : Text) (imports : List Text) :
    resolve? r (scope ++ ['.']) fileScope imports = none := by
  rw [resolve?, Text.splitLast?_append_cons (by simp)]
  rfl

theorem resolve?_dotted {cs : List ClassId} (h : ∀ c ∈ cs, '.' ∉ c.name) (scope : Text) {last : Text} (hl : '.' ∉ last)
    (hne : last ≠ []) (fileScope : Text) (imports : List Text) :
    resolve? (ofClasses cs) (scope ++ '.' :: last) fileScope imports = some (dottedMeaning cs scope last) := by
  rw [resolve?, Text.splitLast?_append_cons hl]
  simp [hne, resolveDotted_eq h hl]

theorem resolve?_bare {cs : List ClassId} (h : ∀ c ∈ cs, '.' ∉ c.name) {name : Text} (hn : '.' ∉ name)
    (hne : name ≠ []) (fileScope : Text) (imports : List Text) :
    resolve? (ofClasses cs) name fileScope imports = some (bareMeaning cs name fileScope imports) := by
  rw [resolve?, Text.splitLast?_eq_none_iff.2 hn]
  simp [hne, resolveBare_eq h hn]

/-- a name means a registered class, or one of the external project -/
theorem mem_of_resolve? {cs : List ClassId} (h : ∀ c ∈ cs, '.' ∉ c.name) {name fileScope : Text} {imports : List Text}
    {d : ClassId} (hd : resolve? (ofClasses cs) name fileScope imports = some d) :
    d ∈ cs ∨ d.project = externalProject := by
  by_cases hp : '.' ∈ name
  · obtain ⟨scope, last, rfl, hl⟩ := Text.exists_last hp
    by_cases hne : last = []
    · rw [hne, resolve?_endsWithPoint] at hd
      contradiction
    · rw [resolve?_dotted h scope hl hne] at hd
      obtain rfl := Option.some.inj hd
      exact mem_dottedMeaning cs scope last
  · by_cases hne : name = []
    · rw [hne, resolve?_nil] at hd
      contradiction
    · rw [resolve?_bare h hp hne] at hd
      obtain rfl := Option.some.inj hd
      exact mem_bareMeaning cs name fileScope imports

/-- **Names mean what was registered.** Nothing is meant by the empty name or by one that ends with a point. A dotted
name means the last class of that scope, a bare one the last class of the first scope that has it. -/
theorem resolve?_ofClasses (cs : List ClassId) (h : ∀ c ∈ cs, '.' ∉ c.name) (fileScope : Text) (imports : List Text) :
    resolve? (ofClasses cs) [] fileScope imports = none ∧
    (∀ scope, resolve? (ofClasses cs) (scope ++ ['.']) fileScope imports = none) ∧
    (∀ scope last, '.' ∉ last → last ≠ [] →
      resolve? (ofClasses cs) (scope ++ '.' :: last) fileScope imports = some (dottedMeaning cs scope last)) ∧
    (∀ name, '.' ∉ name → name ≠ [] →
      resolve? (ofClasses cs) name fileScope imports = some (bareMeaning cs name fileScope imports)) := by
  refine ⟨resolve?_nil _ _ _, fun scope => resolve?_endsWithPoint _ _ _ _, ?_, ?_⟩
  · intro scope last hl hne
    exact resolve?_dotted h scope hl hne fileScope imports
  · intro name hn hne
    exact resolve?_bare h hn hne fileScope imports

/-- two registrations of one class in one scope, the later one wins, and a bare name finds it through an import -/
theorem resolve?_ofClasses_reregistered :
    resolve? (ofClasses [⟨['C'], ['N'], ['p']⟩, ⟨['C'], ['N'], ['q']⟩, ⟨['C'], [], ['r']⟩]) ['C'] [] [[], ['N']] =
      some ⟨['C'], ['N'], ['q']⟩ :=
  (resolve?_ofClasses [⟨['C'], ['N'], ['p']⟩, ⟨['C'], ['N'], ['q']⟩, ⟨['C'], [], ['r']⟩] (by decide) [] [[], ['N']]).2.2.2
    ['C'] (by decide) (by decide)

/-! ## Classes outside any namespace -/

/-- no class of that name stands in a namespace that a file looks into -/
def NotInScopes (cs : List ClassId) (name fileScope : Text) (imports : List Text) : Prop :=
  ∀ c ∈ cs, c.name = name → c.scope = [] ∨ c.scope ∉ fileScope :: imports

theorem NotInScopes.inFirstScope? {cs : List ClassId} {name fileScope : Text} {imports : List Text}
    (h : NotInScopes cs name fileScope imports) : inFirstScope? cs name fileScope imports = none := by
  refine List.findSome?_eq_none_iff.2 fun scope hscope => lastIn_eq_none fun c hc hn hs => ?_
  obtain ⟨hm, hne⟩ := List.mem_filter.1 hscope
  rcases h c hc hn with hempty | hout
  · exact of_decide_eq_true hne (hs.symm.trans hempty)
  · exact hout (hs ▸ hm)

/-- the last of the classes of its name that stand outside any namespace is found as long as it is the last of all -/
theorem global?_of_split {before after : List ClassId} {g : ClassId} (hg : g.scope = [])
    (hlast : ∀ c ∈ after, c.name = g.name → c.scope ≠ []) :
    global? (before ++ g :: after) g.name = if ∀ c ∈ after, c.name ≠ g.name then some g else none := by
  rw [global?, lastNamed_of_split]
  cases hc : lastNamed after g.name with
  | none =>
    rw [if_pos (lastNamed_eq_none_iff.1 hc), Option.none_or, Option.filter_some, if_pos (by simpa using hg)]
  | some c =>
    obtain ⟨hm, hn⟩ := eq_of_lastNamed hc
    rw [if_neg fun h => h c hm hn, Option.some_or, Option.filter_some, if_neg (by simpa using hlast c hm hn)]

/-- **Classes outside any namespace are visible until their name is registered again.** In a file that looks into no
namespace with a class of the name, the bare name means the last such class exactly if no class of the name comes after
it. Otherwise the name is external. -/
theorem resolve?_global_iff (before after : List ClassId) (g : ClassId) (hg : g.scope = [])
    (hdots : ∀ c ∈ before ++ g :: after, '.' ∉ c.name) (hlast : ∀ c ∈ after, c.name = g.name → c.scope ≠ [])
    (fileScope : Text) (imports : List Text) (hout : NotInScopes (before ++ g :: after) g.name fileScope imports) :
    let meant := resolve? (ofClasses (before ++ g :: after)) g.name fileScope imports
    (meant = some g ↔ g.name ≠ [] ∧ ∀ c ∈ after, c.name ≠ g.name) ∧
    (g.name ≠ [] → meant ≠ some g → meant = some ⟨g.name, unknownScope, externalProject⟩) := by
  intro meant
  by_cases hne : g.name = []
  · have hmeant : meant = none := by rw [← resolve?_nil _ fileScope imports, ← hne]
    simp [hmeant, hne]
  have hdot : '.' ∉ g.name := hdots g (by simp)
  have hmeant : meant = some ((global? (before ++ g :: after) g.name).getD ⟨g.name, unknownScope, externalProject⟩) := by
    have hbare := resolve?_bare hdots hdot hne fileScope imports
    rwa [bareMeaning, hout.inFirstScope?, Option.none_or] at hbare
  rw [hmeant, global?_of_split hg hlast]
  by_cases hlater : ∀ c ∈ after, c.name ≠ g.name
  · rw [if_pos hlater, Option.getD_some]
    exact ⟨iff_of_true rfl ⟨hne, hlater⟩, fun _ h => absurd rfl h⟩
  · -- the external class has a scope, and so differs from the one sought
    have hother : some (⟨g.name, unknownScope, externalProject⟩ : ClassId) ≠ some g := by
      intro he
      have hscope : unknownScope = g.scope := congrArg ClassId.scope (Option.some.inj he)
      exact absurd (hscope.trans hg) (by decide)
    rw [if_neg hlater, Option.getD_none]
    exact ⟨iff_of_false hother fun h => hlater h.2, fun _ _ => rfl⟩

/-- a class outside any namespace that was registered after one of its name in a namespace, and before another class -/
theorem resolve?_global_iff_registered_last :
    resolve? (ofClasses [⟨['C'], ['N'], ['p']⟩, ⟨['C'], [], ['q']⟩, ⟨['D'], ['N'], ['p']⟩]) ['C'] ['M'] [] =
      some ⟨['C'], [], ['q']⟩ :=
  (resolve?_global_iff [⟨['C'], ['N'], ['p']⟩] [⟨['D'], ['N'], ['p']⟩] ⟨['C'], [], ['q']⟩ rfl (by decide) (by decide)
    ['M'] [] (by unfold NotInScopes; decide)).1.2 (by decide)

/-- it is not visible everywhere: a class of its name in a namespace that the file does not look into hides it -/
theorem global_not_visible_everywhere :
    ¬ ∀ (cs : List ClassId) (g : ClassId) (fileScope : Text) (imports : List Text), (∀ c ∈ cs, '.' ∉ c.name) →
      lastIn cs [] g.name = some g → (∀ c ∈ cs, c.name = g.name → c.scope ∉ fileScope :: imports) →
      resolve? (ofClasses cs) g.name fileScope imports = some g := by
  intro h
  have hfound := h [⟨['H'], [], ['u']⟩, ⟨['H'], ['A'], ['a']⟩] ⟨['H'], [], ['u']⟩ ['W'] [] (by decide) (by decide)
    (by decide)
  rw [resolve?_bare (by decide) (by decide) (by decide)] at hfound
  exact absurd hfound (by decide)

end ClassAtlas.Resolution
