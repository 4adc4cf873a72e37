import Mathlib.Data.List.Forall2
import Mathlib.Data.List.TakeWhile
import SafeRefactor.Catalog
import SafeRefactor.Config.Settings

/-!
# Layers of rule lists

Which rules run is put together from four lists of names, two in the settings and two on the command
line. The names are read in different places and by way of errors of different kinds, but all of
them count alike: a name stands for a rule if it is a spelling of it. The lists of the only rules
replace each other, and those of disabled rules add up.
-/

set_option autoImplicit false

namespace SafeRefactor

namespace Text

/-- Blanks around a text with no blank in it are trimmed off. -/
theorem trim_between {s : String} {before word after : List Char}
    (hs : s.toList = before ++ word ++ after)
    (hbefore : ∀ c ∈ before, isBlank c = true) (hafter : ∀ c ∈ after, isBlank c = true)
    (hword : ∀ c ∈ word, isBlank c = false) : trim s = String.ofList word := by
  have hfront : s.toList.dropWhile isBlank = (word ++ after).dropWhile isBlank := by
    rw [hs, List.append_assoc, List.dropWhile_append_of_pos hbefore]
  have hback (w : List Char) (hw : ∀ c ∈ w, isBlank c = false) : w.dropWhile isBlank = w := by
    cases w with
    | nil => rfl
    | cons c w => simp [hw c (by simp)]
  cases word with
  | nil =>
    have hnone : after.dropWhile isBlank = [] := List.dropWhile_eq_nil_iff.mpr hafter
    simp [trim, hfront, hnone]
  | cons c word =>
    have hstop : (c :: word ++ after).dropWhile isBlank = c :: word ++ after := by
      simp [hword c (by simp)]
    have hlast : (c :: word).reverse.dropWhile isBlank = (c :: word).reverse :=
      hback _ fun d hd => hword d (List.mem_reverse.mp hd)
    rw [trim, hfront, hstop, List.reverse_append,
      List.dropWhile_append_of_pos (by simpa using hafter), hlast, List.reverse_reverse]

/-- Trimming takes away nothing but blanks at the ends. -/
theorem exists_trim (s : String) : ∃ before after, s.toList = before ++ (trim s).toList ++ after ∧
    (∀ c ∈ before, isBlank c = true) ∧ ∀ c ∈ after, isBlank c = true := by
  refine ⟨s.toList.takeWhile isBlank,
    ((s.toList.dropWhile isBlank).reverse.takeWhile isBlank).reverse, ?_,
    fun c hc => List.mem_takeWhile_imp hc,
      fun c hc => List.mem_takeWhile_imp (List.mem_reverse.mp hc)⟩
  rw [trim, String.toList_ofList, List.append_assoc, ← List.reverse_append,
    List.takeWhile_append_dropWhile, List.reverse_reverse, List.takeWhile_append_dropWhile]

end Text

namespace Rule

/-- How a character of a name is read: underscores as hyphens, upper-case ASCII letters as lower
case. -/
def readChar (c : Char) : Char :=
  if c = '_' then '-' else if 'A' ≤ c ∧ c ≤ 'Z' then Char.ofNat (c.toNat + 32) else c

/-- A text spells the name of a rule: blanks may stand around it, its letters may be of either case,
and underscores may stand for hyphens. -/
def SpelledBy (r : Rule) (text : String) : Prop :=
  ∃ before word after, text.toList = before ++ word ++ after ∧
    (∀ c ∈ before, Text.isBlank c = true) ∧
    (∀ c ∈ after, Text.isBlank c = true) ∧ word.map readChar = r.name.toList

theorem all_nodup : all.Nodup := by decide

theorem mem_all (r : Rule) : r ∈ all := by cases r <;> decide

theorem name_injective {q r : Rule} (h : q.name = r.name) : q = r := by
  cases q <;> cases r <;> first | rfl | exact absurd h (by decide)

theorem normalize_toList (text : String) :
    (normalize text).toList = (Text.trim text).toList.map readChar := by
  have hletter : ∀ n < 91, 65 ≤ n → Char.ofNat (n + 32) ≠ '_' := by decide
  rw [normalize, Text.lowerAscii, String.toList_ofList, String.toList_ofList, List.map_map]
  apply List.map_congr_left
  intro c _
  rw [Function.comp_apply, readChar]
  by_cases hupper : 'A' ≤ c ∧ c ≤ 'Z'
  · have hlow : 65 ≤ c.toNat := hupper.1
    have hhigh : c.toNat ≤ 90 := hupper.2
    have hne : c ≠ '_' := by
      rintro rfl
      exact absurd hhigh (by decide)
    rw [if_pos hupper, if_neg (hletter c.toNat (by omega) hlow), if_neg hne]
  · simp only [if_neg hupper]

/-- No character of a name is read from a blank. -/
theorem not_isBlank_of_spelled {r : Rule} {word : List Char}
    (h : word.map readChar = r.name.toList) :
    ∀ c ∈ word, Text.isBlank c = false := by
  have hall : (r.name.toList.all fun c => !Text.isBlank c) = true := by cases r <;> decide
  have hname : ∀ c ∈ r.name.toList, Text.isBlank c = false := by
    simpa using List.all_eq_true.mp hall
  intro c hc
  rw [Bool.eq_false_iff]
  intro hblank
  have hsame : readChar c = c := by
    have hother : c ≠ '_' := by
      rintro rfl
      exact absurd hblank (by decide)
    have hlower : ¬ ('A' ≤ c ∧ c ≤ 'Z') := by
      rintro ⟨hlow, hhigh⟩
      have hlow : 65 ≤ c.toNat := hlow
      have hhigh : c.toNat ≤ 90 := hhigh
      have hletter : ∀ n < 91, 65 ≤ n → Text.isBlank (Char.ofNat n) = false := by decide
      have hc := hletter c.toNat (by omega) hlow
      rw [Char.ofNat_toNat, hblank] at hc
      cases hc
    rw [readChar, if_neg hother, if_neg hlower]
  have hmem : readChar c ∈ r.name.toList := h ▸ List.mem_map_of_mem hc
  rw [hsame] at hmem
  simp [hname c hmem] at hblank

theorem normalize_eq_iff {r : Rule} {text : String} :
    r.name = normalize text ↔ r.SpelledBy text := by
  rw [← String.toList_inj, normalize_toList]
  constructor
  · intro h
    obtain ⟨before, after, htext, hbefore, hafter⟩ := Text.exists_trim text
    exact ⟨before, _, after, htext, hbefore, hafter, h.symm⟩
  · rintro ⟨before, word, after, htext, hbefore, hafter, hword⟩
    rw [Text.trim_between htext hbefore hafter (not_isBlank_of_spelled hword),
      String.toList_ofList, hword]

/-- A name is that of the rule it spells; the rules have different names. -/
theorem ofName?_eq_some_iff {r : Rule} {text : String} :
    ofName? text = some r ↔ r.SpelledBy text := by
  rw [← normalize_eq_iff]
  constructor
  · intro h
    simpa using List.find?_some h
  · intro h
    have hfound : (ofName? text).isSome = true :=
      List.find?_isSome.mpr ⟨r, mem_all r, by simpa using h⟩
    obtain ⟨q, hq⟩ := Option.isSome_iff_exists.mp hfound
    have hname : q.name = normalize text := by simpa using List.find?_some hq
    rw [hq, name_injective (hname.trans h.symm)]

end Rule

namespace Selection

section

-- Unfolding the search for a name compares it with the names of all rules.
attribute [local irreducible] Rule.ofName?

theorem readNames_cons (n : String) (ns : List String) : readNames (n :: ns) =
    match Rule.ofName? n with
    | none => .error n
    | some r =>
      match readNames ns with
      | .error e => .error e
      | .ok rs => .ok (r :: rs) := rfl

end

/-- Some names are read if each spells a rule, and in order. -/
theorem readNames_eq_ok_iff {names : List String} {rs : List Rule} :
    readNames names = .ok rs ↔ List.Forall₂ (fun n r => r.SpelledBy n) names rs := by
  induction names generalizing rs with
  | nil =>
    change Except.ok [] = Except.ok rs ↔ _
    rw [Except.ok.injEq, List.forall₂_nil_left_iff, eq_comm]
  | cons n names ih =>
    rw [readNames_cons]
    cases hn : Rule.ofName? n with
    | none =>
      have hno : ∀ r : Rule, ¬ r.SpelledBy n := by
        intro r hr
        rw [Rule.ofName?_eq_some_iff.mpr hr] at hn
        cases hn
      cases rs <;> simp [hno]
    | some r =>
      have hr : r.SpelledBy n := Rule.ofName?_eq_some_iff.mp hn
      have hsame {q : Rule} : q.SpelledBy n ↔ r = q := by
        rw [← Rule.ofName?_eq_some_iff, hn, Option.some.injEq]
      cases hrest : readNames names with
      | error e => cases rs <;> simp [hsame, ← ih, hrest]
      | ok qs => cases rs <;> simp [hsame, ← ih, hrest]

theorem exists_readNames_iff {names : List String} :
    (∃ rs, readNames names = .ok rs) ↔ ∀ n ∈ names, ∃ r : Rule, r.SpelledBy n := by
  simp only [readNames_eq_ok_iff]
  induction names with
  | nil => simp
  | cons n names ih =>
    rw [List.forall_mem_cons, ← ih]
    constructor
    · rintro ⟨_, h⟩
      cases h with
      | cons hr hrs => exact ⟨⟨_, hr⟩, _, hrs⟩
    · rintro ⟨⟨r, hr⟩, rs, hrs⟩
      exact ⟨r :: rs, .cons hr hrs⟩

theorem mem_of_readNames {names : List String} {rs : List Rule} (h : readNames names = .ok rs)
    (r : Rule) :
    r ∈ rs ↔ ∃ n ∈ names, r.SpelledBy n := by
  rw [readNames_eq_ok_iff] at h
  induction h with
  | nil => simp
  | @cons n q names rs hq _ ih =>
    have hsame : r = q ↔ r.SpelledBy n := by
      rw [← Rule.ofName?_eq_some_iff, Rule.ofName?_eq_some_iff.mpr hq, Option.some.injEq, eq_comm]
    rw [List.mem_cons, List.exists_mem_cons_iff, ih, hsame]

/-- The detectors run in the order of the rules, one for each rule that is allowed. -/
theorem detectors_rules (s : Selection) : (s.detectors.map Detector.rule).Sublist Rule.all ∧
    ∀ r, r ∈ s.detectors.map Detector.rule ↔ s.allows r = true := by
  have hrules : s.detectors.map Detector.rule = Rule.all.filter s.allows := by
    rw [detectors, List.map_map]
    exact List.map_id' s.rules
  rw [hrules]
  exact ⟨List.filter_sublist, fun r => by simp [Rule.mem_all r]⟩

end Selection

namespace Settings

section

variable {α β ε ε' : Type} {x : Except ε α}

theorem bind_eq_ok {f : α → Except ε β} {b : β} :
    (x >>= f) = .ok b ↔ ∃ a, x = .ok a ∧ f a = .ok b := by
  cases x <;> simp [bind, Except.bind]

theorem map_eq_ok {f : α → β} {b : β} : (f <$> x) = .ok b ↔ ∃ a, x = .ok a ∧ f a = b := by
  cases x <;> simp [Functor.map, Except.map]

theorem mapError_eq_ok {f : ε → ε'} {a : α} : x.mapError f = .ok a ↔ x = .ok a := by
  cases x <;> simp [Except.mapError]

end

variable {s : Settings} {only disabled : Option (List String)} {selection : Selection}

/-- A list of the only rules is read if there is one. -/
def OnlyRead : Option (List String) → Option (List Rule) → Prop
  | none, rules => none = rules
  | some names, rules => ∃ rs, Selection.readNames names = .ok rs ∧ some rs = rules

theorem selection_eq_ok : s.selection = .ok selection ↔ ∃ rules, OnlyRead s.enabled rules ∧
    ∃ off, Selection.readNames s.disabled = .ok off ∧ ⟨rules, off⟩ = selection := by
  unfold Settings.selection configuredRules
  cases s.enabled with
  | none => simp [map_eq_ok, mapError_eq_ok, OnlyRead]
  | some names => simp [bind_eq_ok, map_eq_ok, mapError_eq_ok, OnlyRead]

/-- The settings and the command line are resolved if all lists that count are read. -/
theorem resolve_eq_ok :
    s.resolve only disabled = .ok selection ↔ ∃ rules, OnlyRead (only.or s.enabled) rules ∧
    ∃ off, Selection.readNames s.disabled = .ok off ∧
      ∃ more, Selection.readNames (disabled.getD []) = .ok more ∧
        ⟨rules, off ++ more⟩ = selection := by
  -- reading no names disables no more rules
  have hnone : Selection.readNames [] = .ok [] := rfl
  cases only with
  | none =>
    cases disabled with
    | none => simp [resolve, selection_eq_ok, hnone]
    | some names =>
      simp [resolve, bind_eq_ok, map_eq_ok, selection_eq_ok, givenRules, mapError_eq_ok,
        Selection.without]
  | some names =>
    cases disabled with
    | none =>
      simp [resolve, bind_eq_ok, map_eq_ok, givenRules, configuredRules, mapError_eq_ok,
        OnlyRead, hnone]
    | some names =>
      simp [resolve, bind_eq_ok, map_eq_ok, givenRules, configuredRules, mapError_eq_ok, OnlyRead,
        Selection.without]

theorem exists_resolve_iff : (∃ selection, s.resolve only disabled = .ok selection) ↔
    ∀ n ∈ (only.or s.enabled).getD [] ++ s.disabled ++ disabled.getD [],
      ∃ r : Rule, r.SpelledBy n := by
  have honly : (∃ rules, OnlyRead (only.or s.enabled) rules) ↔
      ∀ n ∈ (only.or s.enabled).getD [], ∃ r : Rule, r.SpelledBy n := by
    cases only.or s.enabled with
    | none => simp [OnlyRead]
    | some names => simpa [OnlyRead] using @Selection.exists_readNames_iff names
  rw [List.forall_mem_append, List.forall_mem_append, ← honly, ← Selection.exists_readNames_iff,
    ← Selection.exists_readNames_iff]
  constructor
  · rintro ⟨_, h⟩
    obtain ⟨rules, hrules, off, hoff, more, hmore, -⟩ := resolve_eq_ok.mp h
    exact ⟨⟨⟨rules, hrules⟩, off, hoff⟩, more, hmore⟩
  · rintro ⟨⟨⟨rules, hrules⟩, off, hoff⟩, more, hmore⟩
    exact ⟨_, resolve_eq_ok.mpr ⟨rules, hrules, off, hoff, more, hmore, rfl⟩⟩

/-- A rule is allowed if it is named where only some rules are, and not named where rules are
disabled. -/
theorem allows_of_resolve (h : s.resolve only disabled = .ok selection) (r : Rule) :
    selection.allows r = true ↔
      (∀ names, only.or s.enabled = some names → ∃ n ∈ names, r.SpelledBy n) ∧
        ∀ n ∈ s.disabled ++ disabled.getD [], ¬ r.SpelledBy n := by
  obtain ⟨rules, hrules, off, hoff, more, hmore, rfl⟩ := resolve_eq_ok.mp h
  have hdisabled : r ∈ off ++ more ↔ ∃ n ∈ s.disabled ++ disabled.getD [], r.SpelledBy n := by
    simp only [List.mem_append, or_and_right, exists_or, Selection.mem_of_readNames hoff,
      Selection.mem_of_readNames hmore]
  have hallowed : (⟨rules, off ++ more⟩ : Selection).allows r = true ↔
      (∀ rs, rules = some rs → r ∈ rs) ∧ r ∉ off ++ more := by
    cases rules <;> simp [Selection.allows]
  rw [hallowed, hdisabled]
  push Not
  refine and_congr_left fun _ => ?_
  cases hnames : only.or s.enabled with
  | none =>
    obtain rfl : none = rules := by simpa [hnames, OnlyRead] using hrules
    simp
  | some names =>
    obtain ⟨rs, hrs, rfl⟩ : ∃ rs, Selection.readNames names = .ok rs ∧ some rs = rules := by
      simpa [hnames, OnlyRead] using hrules
    simp [Selection.mem_of_readNames hrs]

/-- Resolving succeeds if and only if every name that counts spells a rule; where the command line
names the only rules, those of the settings do not count. A rule then runs if it is spelled in the
list of the only rules, or there is no such list, and in neither list of disabled ones. Nothing
depends on the order of names or on how often they are given: the detectors are those of the rules
allowed, once each and in the order of all rules. A list of the only rules with no names in it lets
nothing run. -/
theorem resolve_layers (s : Settings) (only disabled : Option (List String)) :
    ((∃ selection, s.resolve only disabled = .ok selection) ↔
      ∀ n ∈ (only.or s.enabled).getD [] ++ s.disabled ++ disabled.getD [],
        ∃ r : Rule, r.SpelledBy n) ∧
    ∀ selection, s.resolve only disabled = .ok selection →
      (∀ r, selection.allows r = true ↔
        (∀ names, only.or s.enabled = some names → ∃ n ∈ names, r.SpelledBy n) ∧
          ∀ n ∈ s.disabled ++ disabled.getD [], ¬ r.SpelledBy n) ∧
      Rule.all.Nodup ∧ (selection.detectors.map Detector.rule).Sublist Rule.all ∧
      (∀ r, r ∈ selection.detectors.map Detector.rule ↔ selection.allows r = true) ∧
      (only.or s.enabled = some [] → selection.detectors = []) := by
  refine ⟨exists_resolve_iff, ?_⟩
  intro selection h
  obtain ⟨hsublist, hmem⟩ := selection.detectors_rules
  refine ⟨allows_of_resolve h, Rule.all_nodup, hsublist, hmem, ?_⟩
  intro hempty
  rw [← List.map_eq_nil_iff (f := Detector.rule), List.eq_nil_iff_forall_not_mem]
  intro r hr
  obtain ⟨n, hn, -⟩ := ((allows_of_resolve h r).mp ((hmem r).mp hr)).1 [] hempty
  cases hn

/-- The rules named on the command line replace those of the settings, but one of them stays
disabled. -/
theorem resolve_layers_replaced :
    let s : Settings := { enabled := some ["nested-loop"], disabled := [" Bare_Except "] }
    let only := some ["bare-except", "missing_docstring", "MISSING-DOCSTRING"]
    ∃ selection, s.resolve only none = .ok selection ∧
      selection.detectors.map Detector.rule = [.missingDocstring] ∧
      Rule.bareExcept.SpelledBy " Bare_Except " ∧ selection.allows .bareExcept = false := by
  intro s only
  have hresolve : s.resolve only none =
      .ok ⟨some [.bareExcept, .missingDocstring, .missingDocstring], [.bareExcept]⟩ := by decide
  have hspelled : Rule.bareExcept.SpelledBy " Bare_Except " :=
    Rule.ofName?_eq_some_iff.mp (by decide)
  obtain ⟨hallows, -⟩ := (resolve_layers s only none).2 _ hresolve
  refine ⟨_, hresolve, by decide, hspelled, ?_⟩
  rw [Bool.eq_false_iff]
  intro hallowed
  exact ((hallows .bareExcept).mp hallowed).2 " Bare_Except " (by decide) hspelled

end Settings

end SafeRefactor
