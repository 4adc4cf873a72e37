import SafeRefactor.Proofs.Concatenations

/-!
# Names of new lists

A fix that joins pieces puts them into a list, and the list needs a name. Every name is chosen
against the names of the module alone, without regard to the other fixes. Still no two fixes for
different names get the same list, because the name can be read off that of its list, numbered or
not.
-/

set_option autoImplicit false

namespace SafeRefactor.Detect

open Syntax

/-- A name with a number behind it. -/
def numbered (base : String) (n : Nat) : String := base ++ "_" ++ toString n

theorem numbered_toList (base : String) (n : Nat) :
    (numbered base n).toList = base.toList ++ '_' :: Nat.toDigits 10 n := by
  simp [numbered, Nat.toList_repr]

theorem toDigits_injective {m n : Nat} (h : Nat.toDigits 10 m = Nat.toDigits 10 n) : m = n := by
  have hvalue := congrArg (fun ds => Nat.ofDigitChars 10 ds 0) h
  simpa only [Nat.ofDigitChars_ten_toDigits] using hvalue

/-- What stands before and behind the last occurrence of a character. -/
theorem append_inj_of_notMem {c : Char} {xs ys ds es : List Char}
    (h : xs ++ c :: ds = ys ++ c :: es) (hds : c ∉ ds) (hes : c ∉ es) : xs = ys ∧ ds = es := by
  have hlast {us vs ws : List Char} (hws : c ∉ ws) (heq : c :: ws = us ++ c :: vs) : us = [] ∧
      ws = vs := by
    cases us with
    | nil => exact ⟨rfl, (List.cons.inj heq).2⟩
    | cons d us =>
      rw [(List.cons.inj heq).2] at hws
      simp at hws
  rcases List.append_eq_append_iff.mp h with ⟨mid, rfl, hmid⟩ | ⟨mid, rfl, hmid⟩
  · obtain ⟨rfl, rfl⟩ := hlast hds hmid
    simp
  · obtain ⟨rfl, rfl⟩ := hlast hes hmid
    simp

/-- The number stands behind the last underscore. -/
theorem numbered_inj {a b : String} {m n : Nat} (h : numbered a m = numbered b n) :
    a = b ∧ m = n := by
  have hdigits (k : Nat) : '_' ∉ Nat.toDigits 10 k := by
    intro hmem
    cases Nat.isDigit_of_mem_toDigits (by decide) (by decide) hmem
  rw [← String.toList_inj, numbered_toList, numbered_toList] at h
  obtain ⟨hbase, hnumber⟩ := append_inj_of_notMem h (hdigits m) (hdigits n)
  exact ⟨String.toList_inj.mp hbase, toDigits_injective hnumber⟩

/-- A numbered name ends in a digit. -/
theorem getLast?_numbered (base : String) (n : Nat) :
    ∃ c, (numbered base n).toList.getLast? = some c ∧ c.isDigit = true := by
  have hne : Nat.toDigits 10 n ≠ [] := by
    rw [← List.length_pos_iff]
    exact Nat.length_toDigits_pos
  refine ⟨(Nat.toDigits 10 n).getLast hne, ?_, ?_⟩
  · rw [numbered_toList, List.getLast?_append, List.getLast?_cons,
      List.getLast?_eq_getLast_of_ne_nil hne]
    rfl
  · exact Nat.isDigit_of_mem_toDigits (by decide) (by decide) (List.getLast_mem hne)

variable {base : String} {taken : List String}

/-- The search finds the least number from `n` on whose name is not taken. -/
theorem numberedName_eq (base : String) (taken : List String) (n : Nat) :
    ∃ m, n ≤ m ∧ numberedName base taken n = numbered base m ∧ numbered base m ∉ taken ∧
      ∀ k, n ≤ k → k < m → numbered base k ∈ taken := by
  induction taken, n using numberedName.induct base with
  | case1 taken n candidate hmem ih =>
    obtain ⟨m, hle, hname, hfree, hleast⟩ := ih
    -- striking the name out of the list says nothing about names with other numbers
    have hother (k : Nat) (hk : n < k) : numbered base k ∈ taken.erase candidate ↔
        numbered base k ∈ taken := by
      refine List.mem_erase_of_ne ?_
      intro heq
      have := (numbered_inj (show numbered base k = numbered base n from heq)).2
      omega
    refine ⟨m, by omega, ?_, (hother m (by omega)).not.mp hfree, ?_⟩
    · rw [numberedName, dif_pos hmem, hname]
    · intro k hnk hkm
      rcases Nat.eq_or_lt_of_le hnk with rfl | hlt
      · exact hmem
      · exact (hother k hlt).mp (hleast k hlt hkm)
  | case2 taken n candidate hfree =>
    refine ⟨n, Nat.le_refl n, ?_, hfree, fun k hnk hkn => absurd hkn (Nat.not_lt.mpr hnk)⟩
    rw [numberedName, dif_neg hfree]
    rfl

/-- An unused name is the name itself if that is free, and else the first numbered name that is. -/
theorem unusedName_spec (base : String) (taken : List String) : unusedName base taken ∉ taken ∧
    (base ∉ taken ∧ unusedName base taken = base ∨
      base ∈ taken ∧ ∃ n, 2 ≤ n ∧ unusedName base taken = numbered base n ∧
        ∀ k, 2 ≤ k → k < n → numbered base k ∈ taken) := by
  unfold unusedName
  by_cases hbase : base ∈ taken
  · obtain ⟨n, hle, hname, hfree, hleast⟩ := numberedName_eq base taken 2
    rw [if_pos hbase, hname]
    exact ⟨hfree, .inr ⟨hbase, n, hle, rfl, hleast⟩⟩
  · rw [if_neg hbase]
    exact ⟨hbase, .inl ⟨hbase, rfl⟩⟩

namespace StringConcat

/-- The name that the list for a string is given if it is free. -/
def listBase (v : String) : String := "_" ++ v ++ "_parts"

theorem listBase_inj {v w : String} (h : listBase v = listBase w) : v = w := by
  rw [← String.toList_inj] at h ⊢
  simpa [listBase] using h

theorem listBase_ne_numbered (v w : String) (n : Nat) : listBase v ≠ numbered (listBase w) n := by
  intro h
  obtain ⟨c, hc, hdigit⟩ := getLast?_numbered (listBase w) n
  rw [← h] at hc
  have hlast : (listBase v).toList.getLast? = some 's' := by
    rw [listBase, String.toList_append, List.getLast?_append]
    rfl
  rw [hlast, Option.some.injEq] at hc
  subst hc
  cases hdigit

/-- Whatever names are taken, the name of a list tells what it is for. -/
theorem unusedName_listBase_inj {v w : String} {taken taken' : List String}
    (h : unusedName (listBase v) taken = unusedName (listBase w) taken') : v = w := by
  rcases (unusedName_spec (listBase v) taken).2 with ⟨-, hv⟩ | ⟨-, m, -, hv, -⟩
  · rcases (unusedName_spec (listBase w) taken').2 with ⟨-, hw⟩ | ⟨-, n, -, hw, -⟩
    · exact listBase_inj (hv.symm.trans (h.trans hw))
    · exact absurd (hv.symm.trans (h.trans hw)) (listBase_ne_numbered v w n)
  · rcases (unusedName_spec (listBase w) taken').2 with ⟨-, hw⟩ | ⟨-, n, -, hw, -⟩
    · exact absurd (hw.symm.trans (h.symm.trans hv)) (listBase_ne_numbered w v m)
    · exact listBase_inj (numbered_inj (hv.symm.trans (h.trans hw))).1

/-- The new text of a loop collects pieces in a list with a given name, and joins that list for a
string. -/
def Collects (list v fix : String) : Prop := ∃ indent header bodyIndent piece rest,
  fix = indent ++ list ++ " = []\n" ++ header ++ "\n" ++ bodyIndent ++ list ++ ".append(" ++
    piece ++ ")\n" ++ rest ++ v ++ " += \"\".join(" ++ list ++ ")"

theorem joinFix?_collects {t : Tree} {loop : Node} {a : Accumulation} {range : LineRange}
    {fix : String} (h : joinFix? t taken loop a = some (range, fix)) :
    Collects (unusedName (listBase a.name) taken) a.name fix := by
  simp only [joinFix?, Option.bind_eq_bind, Option.bind_eq_some_iff] at h
  obtain ⟨e, -, h⟩ := h
  split at h
  · simp only [Option.some.injEq, Prod.mk.injEq] at h
    obtain ⟨-, rfl⟩ := h
    refine ⟨t.indentation loop.line, t.linesText loop.line (a.statement.line - 1),
      t.indentation a.statement.line, t.text e,
      (if a.statement.endLine < loop.endLine then t.linesText (a.statement.endLine + 1)
        loop.endLine ++ "\n"
        else "") ++ t.indentation loop.line, ?_⟩
    simp only [listBase, String.append_assoc]
  · cases h

/-- The name of the list that a fix for a growing string introduces. -/
def Growth.list (t : Tree) (g : Growth) : String := unusedName (listBase g.name) t.names

theorem Growth.collects {t : Tree} (g : Growth) {fix : String} (h : (g.issue t).fix = some fix) :
    Collects (g.list t) g.name fix := by
  obtain ⟨⟨range, text⟩, hjoin⟩ := Growth.exists_join (Option.isSome_of_eq_some h)
  have htext : text = fix := Option.some.inj ((Growth.issue_of_join hjoin).2.symm.trans h)
  have hcollects := joinFix?_collects hjoin
  rw [htext] at hcollects
  exact hcollects

/-- The list of a fix is not called what anything in the module is called. -/
theorem Growth.list_ne_text {t : Tree} (g : Growth) {n : Node} (hn : n ∈ t.root.preorder)
    (hname : n.has .identifier = true) : t.text n ≠ g.list t := by
  have hmem : t.text n ∈ t.names := by
    rw [Tree.names, t.nodes_eq_preorder]
    exact List.mem_map_of_mem (List.mem_filter.mpr ⟨hn, hname⟩)
  intro heq
  rw [heq] at hmem
  exact (unusedName_spec (listBase g.name) t.names).1 hmem

/-- Whatever names are taken, the search for an unused one ends with the name itself if that is
free, and else with the least number that makes it free. The fixes of a module introduce lists that
nothing in it is called, and fixes for different strings introduce different lists. -/
theorem lists_apart : (∀ base taken, unusedName base taken ∉ taken ∧
      (base ∉ taken ∧ unusedName base taken = base ∨
        base ∈ taken ∧ ∃ n, 2 ≤ n ∧ unusedName base taken = numbered base n ∧
          ∀ k, 2 ≤ k → k < n → numbered base k ∈ taken)) ∧
    ∀ t : Tree, ∃ gs : List Growth, issues t = gs.map (Growth.issue t) ∧
      ∀ g ∈ gs, ∀ fix, (g.issue t).fix = some fix →
        Collects (g.list t) g.name fix ∧
        (∀ n ∈ t.root.preorder, n.has .identifier = true → t.text n ≠ g.list t) ∧
        ∀ other ∈ gs, (other.issue t).fix.isSome = true → other.name ≠ g.name →
        other.list t ≠ g.list t := by
  refine ⟨unusedName_spec, ?_⟩
  intro t
  obtain ⟨gs, hissues, -, -⟩ := exists_growths t
  refine ⟨gs, hissues, ?_⟩
  intro g _ fix hfix
  refine ⟨g.collects hfix, fun n hn hname => g.list_ne_text hn hname, ?_⟩
  intro other _ _ hne heq
  exact hne (unusedName_listBase_inj heq)

/-- One list is numbered, as its name is taken, and the other one is not. -/
theorem lists_apart_numbered :
    let source := "a = b = ''\nfor x in _a_parts:\n a += '1'\nfor x in y:\n b += '2'\n"
    let t : Tree := ⟨source, Tree.rootOf source.toList⟩
    ∃ g other, issues t = [Growth.issue t g, Growth.issue t other] ∧ (g.issue t).fix.isSome = true ∧
      (other.issue t).fix.isSome = true ∧ other.name ≠ g.name ∧ g.list t = "_a_parts_2" ∧
      other.list t ≠ g.list t := by
  intro source t
  let describe (v : String) :=
    "String \x60" ++ v ++ "\x60 is rebuilt by concatenation inside a loop"
  have hname (g : Growth) {v : String} (h : (g.issue t).description = describe v) : g.name = v := by
    have hdescription : describe g.name = describe v := h
    rw [← String.toList_inj] at hdescription ⊢
    simpa [describe] using hdescription
  have hfacts : (issues t).map (fun i => (i.description, i.fix.isSome)) =
      [(describe "a", true), (describe "b", true)] ∧
      unusedName (listBase "a") t.names = "_a_parts_2" := by decide +kernel
  obtain ⟨hdescriptions, hlist⟩ := hfacts
  obtain ⟨gs, hissues, hfixes⟩ := lists_apart.2 t
  rw [hissues, List.map_map] at hdescriptions
  obtain ⟨g, rest, rfl, hg, hrest⟩ := List.map_eq_cons_iff.mp hdescriptions
  obtain ⟨other, rfl, hother⟩ := List.map_eq_singleton_iff.mp hrest
  obtain ⟨ha, hfix⟩ := Prod.mk.inj hg
  obtain ⟨hb, hfix'⟩ := Prod.mk.inj hother
  have hne : other.name ≠ g.name := by
    rw [hname g ha, hname other hb]
    decide
  obtain ⟨fix, hsome⟩ := Option.isSome_iff_exists.mp hfix
  refine ⟨g, other, hissues, hfix, hfix', hne, ?_,
    (hfixes g (by simp) fix hsome).2.2 other (by simp) hfix' hne⟩
  rw [Growth.list, hname g ha, hlist]

end StringConcat

end SafeRefactor.Detect
