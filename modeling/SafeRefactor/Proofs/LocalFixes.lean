import Mathlib.Data.List.Pairwise
import Mathlib.Data.List.Perm.Basic
import SafeRefactor.Proofs.FixTexts

/-!
# What docstrings and handlers change

If only docstrings are put in and bare handlers narrowed, a live run keeps the text row by row. A
row with a handler that is narrowed has other bytes between the keyword and the colon; below the
last row of a header stands one new row, the docstring; and all else is as it was, but for carriage
returns at the ends of rows.
-/

set_option autoImplicit false

namespace SafeRefactor

open Syntax Text

namespace Selection

/-- The nodes of a shape for which a rule, if it is allowed, reports an issue with a fix. -/
def fixed (s : Selection) (r : Rule) (t : Tree) (shape : Node → Bool) (issue : Node → Issue) :
    List Node :=
  t.root.preorder.filter fun n => s.allows r && shape n && (issue n).fix.isSome

/-- The functions without a docstring that have a fix. -/
def documented (s : Selection) (t : Tree) : List Node :=
  s.fixed .missingDocstring t (fun n => n.has .functionDefinition && !Detect.hasDocstring n)
    (Detect.Docstring.issue t)

/-- The bare handlers that have a fix. -/
def narrowed (s : Selection) (t : Tree) : List Node :=
  s.fixed .bareExcept t (fun n => n.has .exceptClause && Detect.BareExcept.isBare n)
    (Detect.BareExcept.issue t)

/-- No other rules are allowed than the one on docstrings and the one on bare handlers. -/
def IsLocal (s : Selection) : Prop :=
  ∀ r, s.allows r = true → r = .missingDocstring ∨ r = .bareExcept

variable {s : Selection}

theorem IsLocal.rules_eq (h : s.IsLocal) :
    s.rules = [Rule.missingDocstring].filter s.allows ++ [Rule.bareExcept].filter s.allows := by
  have hother (r : Rule) (hd : r ≠ .missingDocstring) (he : r ≠ .bareExcept) :
      s.allows r = false := by
    by_contra hr
    exact (h r (by simpa using hr)).elim hd he
  have hconcat := hother .stringConcatInLoop (by decide) (by decide)
  have hnested := hother .nestedLoop (by decide) (by decide)
  have hhint := hother .missingTypeHint (by decide) (by decide)
  have hdynamic := hother .dynamicCodeExecution (by decide) (by decide)
  cases hdoc : s.allows .missingDocstring <;> cases hbare : s.allows .bareExcept <;>
    simp [rules, Rule.all, hconcat, hnested, hhint, hdynamic, hdoc, hbare]

theorem filter_issues (s : Selection) {r : Rule} {t : Tree} {shape : Node → Bool}
    {issue : Node → Issue} (h : r.issues t = (t.root.preorder.filter shape).map issue) :
    (([r].filter s.allows).flatMap fun r => r.issues t).filter (·.fix.isSome) =
      (s.fixed r t shape issue).map issue := by
  cases hs : s.allows r with
  | false => simp [fixed, hs]
  | true =>
    rw [List.filter_cons_of_pos hs, List.filter_nil, List.flatMap_singleton, h, List.filter_map,
      List.filter_filter, fixed]
    refine congrArg _ (List.filter_congr fun n _ => ?_)
    simp only [hs, Bool.true_and, Function.comp_apply]
    ac_rfl

/-- The issues with a fix are those about these functions and handlers. -/
theorem IsLocal.fixed_perm (h : s.IsLocal) (t : Tree) :
    ((s.issues t).filter (·.fix.isSome)).Perm
      ((s.documented t).map (Detect.Docstring.issue t) ++
        (s.narrowed t).map (Detect.BareExcept.issue t)) := by
  have hsorted : (s.issues t).Perm (s.rules.flatMap fun r => r.issues t) :=
    List.Perm.flatMap_left _ fun r _ => sortBy_perm _ _
  have hdocumented : Rule.issues .missingDocstring t =
      (t.root.preorder.filter fun n => n.has .functionDefinition && !Detect.hasDocstring n).map
        (Detect.Docstring.issue t) := by
    simp only [Bool.and_comm (Node.has _ _), ← List.filter_filter]
    rw [← t.functions_nodes, List.filter_map, List.map_map]
    rfl
  have hnarrowed : Rule.issues .bareExcept t =
      (t.root.preorder.filter fun n => n.has .exceptClause && Detect.BareExcept.isBare n).map
        (Detect.BareExcept.issue t) := by
    rw [← t.nodes_eq_preorder]
    rfl
  refine (hsorted.filter _).trans (.of_eq ?_)
  rw [h.rules_eq, List.flatMap_append, List.filter_append, s.filter_issues hdocumented,
    s.filter_issues hnarrowed]
  rfl

end Selection

/-- What executing an issue with a fix does to the text. -/
def Issue.edit (i : Issue) : Edit := ⟨i.range, i.fix.getD ""⟩

theorem Plan.fixes_perm {p : Plan} {issues : List Issue}
    (h : (p.issues.filter (·.fix.isSome)).Perm issues)
    (hconfidence : ∀ i ∈ issues, i.confidence ≠ .refuse) :
    p.fixes.Perm (issues.map Issue.edit) := by
  have hfixes : p.fixes = (p.issues.filter (·.fix.isSome)).filterMap Issue.edit? := by
    rw [List.filterMap_filter, fixes_eq]
    refine List.filterMap_congr fun i _ => ?_
    cases hfix : i.fix <;> simp [Issue.edit?, hfix]
  have hedits : issues.filterMap Issue.edit? = issues.map Issue.edit := by
    rw [← List.filterMap_eq_map]
    refine List.filterMap_congr fun i hi => ?_
    obtain ⟨fix, hfix⟩ := Option.isSome_iff_exists.mp (List.mem_filter.mp (h.mem_iff.mpr hi)).2
    simp [Issue.edit?, Issue.edit, hfix, hconfidence i hi]
  rw [hfixes, ← hedits]
  exact h.filterMap Issue.edit?

namespace Selection

open Detect

variable {s : Selection} {t : Tree} {n m : Node}

theorem mem_documented (h : n ∈ s.documented t) :
    n ∈ t.root.preorder ∧ n.has .functionDefinition = true ∧
      ∃ fix, (Docstring.issue t n).fix = some fix := by
  rw [documented, fixed, List.mem_filter] at h
  simp only [Bool.and_eq_true] at h
  exact ⟨h.1, h.2.1.2.1, Option.isSome_iff_exists.mp h.2.2⟩

theorem mem_narrowed (h : n ∈ s.narrowed t) :
    n ∈ t.root.preorder ∧ n.has .exceptClause = true ∧
      ∃ fix, (BareExcept.issue t n).fix = some fix := by
  rw [narrowed, fixed, List.mem_filter] at h
  simp only [Bool.and_eq_true] at h
  exact ⟨h.1, h.2.1.2.1, Option.isSome_iff_exists.mp h.2.2⟩

theorem range_documented (h : t.Ranged) (hn : n ∈ s.documented t) :
    (Docstring.issue t n).edit.range = ⟨n.line, headerEnd n⟩ :=
  Docstring.issue_range h (mem_documented hn).1

theorem range_narrowed (t : Tree) (n : Node) :
    (BareExcept.issue t n).edit.range = ⟨n.line, n.line⟩ := by
  simp [Issue.edit, BareExcept.issue, LineRange.single, LineRange.of]

theorem replacement_documented (h : t.Ranged) (hn : n ∈ s.documented t) :
    Docstring.fix? t n ⟨n.line, headerEnd n⟩ = some (Docstring.issue t n).edit.replacement := by
  obtain ⟨hmem, -, fix, hfix⟩ := mem_documented hn
  rw [← Docstring.issue_fix h hmem, Issue.edit, hfix]
  rfl

theorem replacement_narrowed (h : t.Ranged) (hn : n ∈ s.narrowed t) (tail : List Char) :
    BareExcept.Narrows n ((t.lineText n.line).toList ++ tail)
      ((BareExcept.issue t n).edit.replacement.toList ++ tail) := by
  obtain ⟨hmem, -, fix, hfix⟩ := mem_narrowed hn
  rw [Issue.edit, hfix]
  exact BareExcept.fix?_narrows h hmem hfix tail

/-- The headers and handlers with fixes have no line in common. -/
structure Separate (s : Selection) (t : Tree) : Prop where
  headers : ∀ n ∈ s.documented t, ∀ m ∈ s.documented t,
    n.line ≤ headerEnd m → headerEnd m ≤ headerEnd n → m = n
  clauses : ∀ n ∈ s.narrowed t, ∀ m ∈ s.narrowed t, m.line = n.line → m = n
  mixed : ∀ n ∈ s.documented t, ∀ m ∈ s.narrowed t, m.line < n.line ∨ headerEnd n < m.line

theorem separate_of_apart (h : t.Ranged)
    (hapart : (((s.documented t).map (Docstring.issue t) ++
      (s.narrowed t).map (BareExcept.issue t)).map Issue.edit).Pairwise Edit.Apart) :
        s.Separate t := by
  rw [List.map_append, List.pairwise_append, List.map_map, List.map_map, List.pairwise_map,
    List.pairwise_map] at hapart
  obtain ⟨hheaders, hclauses, hmixed⟩ := hapart
  have hsymm (edit : Node → Edit) : Std.Symm fun n m => Edit.Apart (edit n) (edit m) :=
    ⟨fun _ _ h => h.symm⟩
  have := hsymm (Issue.edit ∘ Docstring.issue t)
  have := hsymm (Issue.edit ∘ BareExcept.issue t)
  -- Two nodes are two edits, and edits that lie apart have no line in common.
  constructor
  · intro n hn m hm hfirst hlast
    by_contra hne
    have hend := line_le_headerEnd h (mem_documented hm).1
    have happ := (Edit.apart_iff _ _).mp (hheaders.forall hm hn hne)
    simp only [Function.comp_apply, Edit.Above, range_documented h hn,
      range_documented h hm] at happ
    omega
  · intro n hn m hm hline
    by_contra hne
    have happ := (Edit.apart_iff _ _).mp (hclauses.forall hm hn hne)
    simp only [Function.comp_apply, Edit.Above, range_narrowed] at happ
    omega
  · intro n hn m hm
    have happ := (Edit.apart_iff _ _).mp
      (hmixed _ (List.mem_map_of_mem hn) _ (List.mem_map_of_mem hm))
    simp only [Function.comp_apply, Edit.Above, range_documented h hn, range_narrowed] at happ
    omega

/-- What becomes of a numbered row: it is narrowed if a handler on it has a fix, and a docstring
stands below it if a header with a fix ends on it. -/
structure Revised (s : Selection) (t : Tree) (line : List Char × Nat)
    (group : List Char × List (List Char)) : Prop where
  narrowed : ∀ n ∈ s.narrowed t, n.line = line.2 → BareExcept.Narrows n line.1 group.1
  kept : (∀ n ∈ s.narrowed t, n.line ≠ line.2) → group.1 = line.1
  documented : ∀ n ∈ s.documented t, headerEnd n = line.2 → group.2 = [Docstring.row t n]
  plain : (∀ n ∈ s.documented t, headerEnd n ≠ line.2) → group.2 = []

theorem revised_of_kept {line : List Char × Nat} (hclauses : ∀ n ∈ s.narrowed t, n.line ≠ line.2)
    (hheaders : ∀ n ∈ s.documented t, headerEnd n ≠ line.2) : s.Revised t line (line.1, []) where
  narrowed n hn hline := absurd hline (hclauses n hn)
  kept _ := rfl
  documented n hn hline := absurd hline (hheaders n hn)
  plain _ := rfl

theorem revised_clause (h : t.Ranged) (hsep : s.Separate t) (hn : n ∈ s.narrowed t)
    {row new : List Char}
    (hnew : BareExcept.Narrows n row new) : s.Revised t (row, n.line) (new, []) where
  narrowed m hm hline := hsep.clauses n hn m hm hline ▸ hnew
  kept hother := absurd rfl (hother n hn)
  documented m hm hline := by
    have hle := line_le_headerEnd h (mem_documented hm).1
    have hmixed := hsep.mixed m hm n hn
    simp only at hline
    omega
  plain _ := rfl

theorem revised_headerEnd (h : t.Ranged) (hsep : s.Separate t) (hn : n ∈ s.documented t)
    (row : List Char) :
    s.Revised t (row, headerEnd n) (row, [Docstring.row t n]) where
  narrowed m hm hline := by
    have hle := line_le_headerEnd h (mem_documented hn).1
    have hmixed := hsep.mixed n hn m hm
    simp only at hline
    omega
  kept _ := rfl
  documented m hm hline := by
    have hle := line_le_headerEnd h (mem_documented hn).1
    simp only at hline
    rw [hsep.headers n hn m hm (by omega) (by omega)]
  plain hother := absurd rfl (hother n hn)

theorem revised_header (hsep : s.Separate t) (hn : n ∈ s.documented t) {line : List Char × Nat}
    (hfirst : n.line ≤ line.2) (hlast : line.2 < headerEnd n) : s.Revised t line (line.1, []) := by
  apply revised_of_kept
  · intro m hm hline
    have hmixed := hsep.mixed n hn m hm
    omega
  · intro m hm hline
    have hsame := hsep.headers n hn m hm (by omega) (by omega)
    subst hsame
    omega

/-- The rows of a header are kept, and a docstring is put below them. -/
theorem groups_documented (h : t.Ranged) (hnames : t.NamesOnRow) (hsep : s.Separate t)
    (hn : n ∈ s.documented t) :
    let e := (Docstring.issue t n).edit
    let lines := (splitAt '\n' t.source.toList).zipIdx 1
    ∃ groups,
      List.Forall₂ (s.Revised t) ((lines.take e.range.last).drop (e.range.first - 1)) groups ∧
      (splitAt '\n' e.replacement.toList).map stripReturns =
        (Edit.spread groups).map stripReturns := by
  intro e lines
  obtain ⟨hmem, hf, -⟩ := mem_documented hn
  have hrange : e.range = ⟨n.line, headerEnd n⟩ := range_documented h hn
  have hpos := n.line_pos
  have hle := line_le_headerEnd h hmem
  have hend := headerEnd_le h hmem hf
  have hrows := Docstring.rows_fix? h hnames hmem hf (replacement_documented h hn)
  obtain ⟨tail, hlast, -⟩ := t.row_of_line (hpos.trans hle) hend
  have hpart := Edit.drop_take_zipIdx (hpos.trans hle)
    (show n.line - 1 < headerEnd n by omega) hlast
  generalize (t.lineText (headerEnd n)).toList ++ tail = last at hpart
  -- All rows of the header stay alone but the last one, which the docstring stands below.
  refine ⟨((lines.take (headerEnd n - 1)).drop (n.line - 1)).map (fun x => (x.1, [])) ++
    [(last, [Docstring.row t n])], ?_, ?_⟩
  · rw [hrange, hpart]
    refine List.rel_append (List.forall₂_map_right_iff.mpr (List.forall₂_same.mpr ?_))
      (.cons ?_ .nil)
    · intro x hx
      have hbelow := Edit.le_of_mem_take_zipIdx (List.mem_of_mem_drop hx)
      rw [List.drop_take] at hx
      have habove := Edit.lt_of_mem_drop_zipIdx (List.mem_of_mem_take hx)
      exact revised_header hsep hn (by omega) (by omega)
    · exact revised_headerEnd h hsep hn last
  · have hfst := Edit.map_fst_drop_take_zipIdx (splitAt '\n' t.source.toList) (n.line - 1)
      (headerEnd n)
    rw [hrows, ← hfst, hpart, Edit.spread_append, Edit.spread_plain]
    simp [Edit.spread, lines]

/-- The row of a handler is narrowed. -/
theorem groups_narrowed (h : t.Ranged) (hsep : s.Separate t) (hn : n ∈ s.narrowed t) :
    let e := (BareExcept.issue t n).edit
    let lines := (splitAt '\n' t.source.toList).zipIdx 1
    ∃ groups,
      List.Forall₂ (s.Revised t) ((lines.take e.range.last).drop (e.range.first - 1)) groups ∧
      (splitAt '\n' e.replacement.toList).map stripReturns =
        (Edit.spread groups).map stripReturns := by
  intro e lines
  obtain ⟨hmem, hclause, -⟩ := mem_narrowed hn
  have hrange : e.range = ⟨n.line, n.line⟩ := range_narrowed t n
  have hpos := n.line_pos
  have hend := h.line_le hmem (Node.isSolid_of_has hclause rfl)
  obtain ⟨tail, hrow, htail⟩ := t.row_of_line hpos hend
  have hpart := Edit.drop_take_zipIdx hpos (show n.line - 1 < n.line by omega) hrow
  have hempty : (((splitAt '\n' t.source.toList).zipIdx 1).take (n.line - 1)).drop (n.line - 1) =
      [] := by
    simp
  rw [hempty, List.nil_append] at hpart
  have hnewline : '\n' ∉ e.replacement.toList := by
    have hplain := replacement_narrowed h hn []
    rw [List.append_nil, List.append_nil] at hplain
    exact hplain.notMem (.inl rfl) (t.mem_lineText n.line).1
  refine ⟨[(e.replacement.toList ++ tail, [])], ?_, ?_⟩
  · rw [hrange, hpart]
    exact .cons (revised_clause h hsep hn (replacement_narrowed h hn tail)) .nil
  · rw [splitAt_of_notMem hnewline]
    simp [Edit.spread, stripReturns_append htail]

/-- What executing the issues with a fix does to the text. -/
def edits (s : Selection) (t : Tree) : List Edit :=
  ((s.documented t).map (Docstring.issue t) ++ (s.narrowed t).map (BareExcept.issue t)).map
    Issue.edit

theorem mem_edits {e : Edit} : e ∈ s.edits t ↔
    (∃ n ∈ s.documented t, (Docstring.issue t n).edit = e) ∨
      ∃ n ∈ s.narrowed t, (BareExcept.issue t n).edit = e := by
  simp [edits]

theorem edits_wellFormed (h : t.Ranged) {e : Edit} (he : e ∈ s.edits t) :
    1 ≤ e.range.first ∧ e.range.first ≤ e.range.last ∧ e.range.last ≤ t.lines.length ∧
      e.replacement ≠ "" := by
  rcases mem_edits.mp he with ⟨n, hn, rfl⟩ | ⟨n, hn, rfl⟩
  · obtain ⟨hmem, hf, -⟩ := mem_documented hn
    rw [range_documented h hn]
    refine ⟨n.line_pos, line_le_headerEnd h hmem, headerEnd_le h hmem hf, fun hempty => ?_⟩
    exact Docstring.fix?_ne_empty (replacement_documented h hn) hempty
  · obtain ⟨hmem, hclause, -⟩ := mem_narrowed hn
    rw [range_narrowed]
    refine ⟨n.line_pos, Nat.le_refl _, h.line_le hmem (Node.isSolid_of_has hclause rfl),
      fun hempty => ?_⟩
    obtain ⟨_, before, middle, after, -, -, -, -, -, hnew⟩ := replacement_narrowed h hn []
    simp [hempty] at hnew

/-- A merge of these edits keeps the text row by row. -/
theorem rows_merged (h : t.Ranged) (hnames : t.NamesOnRow) {edits : List Edit}
    (hperm : edits.Perm (s.edits t)) (hapart : edits.Pairwise Edit.Apart) :
    ∃ groups, List.Forall₂ (s.Revised t) ((splitAt '\n' t.source.toList).zipIdx 1) groups ∧
      (splitAt '\n' (Edit.merged t.source edits).toList).map stripReturns =
        (Edit.spread groups).map stripReturns := by
  have hsep : s.Separate t := separate_of_apart h ((hperm.pairwise_iff fun h => h.symm).mp hapart)
  have hform {e : Edit} (he : e ∈ sortBy Edit.le edits) :=
    edits_wellFormed h (hperm.mem_iff.mp ((mem_sortBy _ _ e).mp he))
  have hle : ∀ e ∈ sortBy Edit.le edits, e.range.first ≤ e.range.last := fun e he => (hform he).2.1
  have habove : (sortBy Edit.le edits).Pairwise Edit.Above := by
    have hsorted := ((sortBy_perm Edit.le edits).pairwise_iff fun h => h.symm).mpr hapart
    refine Edit.ordered_above (Edit.ordered_pairwise edits) hsorted.isChain fun e he => ?_
    obtain ⟨hfirst, hlast, -⟩ := hform he
    exact ⟨by omega, by omega⟩
  have hinside : ∀ e ∈ sortBy Edit.le edits, e.Inside (pieces t.source.toList).length := by
    intro e he
    obtain ⟨hfirst, -, hlast, -⟩ := hform he
    rw [t.length_lines] at hlast
    exact ⟨hfirst, hlast⟩
  have hmerge := Edit.rows_merge (Edit.terminatorStyle_eq t.source.toList) t.source.toList
    (List.length_pos_iff.mpr (splitAt_ne_nil _ _)) hinside hle habove fun e he => (hform he).2.2.2
  have hmem {e : Edit} (he : e ∈ s.edits t) : e ∈ sortBy Edit.le edits :=
    (mem_sortBy _ _ e).mpr (hperm.mem_iff.mpr he)
  have hout : ∀ x ∈ ((splitAt '\n' t.source.toList).zipIdx 1).drop 0,
      (∀ e ∈ sortBy Edit.le edits, x.2 < e.range.first ∨ e.range.last < x.2) →
        s.Revised t x (x.1, []) := by
    intro x _ hx
    apply revised_of_kept
    · intro n hn hline
      have hother := hx _ (hmem (mem_edits.mpr (.inr ⟨n, hn, rfl⟩)))
      simp only [range_narrowed] at hother
      omega
    · intro n hn hline
      have hle := line_le_headerEnd h (mem_documented hn).1
      have hother := hx _ (hmem (mem_edits.mpr (.inl ⟨n, hn, rfl⟩)))
      simp only [range_documented h hn] at hother
      omega
  have hin : ∀ e ∈ sortBy Edit.le edits, ∃ groups,
      List.Forall₂ (s.Revised t)
          ((((splitAt '\n' t.source.toList).zipIdx 1).take e.range.last).drop
            (e.range.first - 1)) groups ∧
        (splitAt '\n' e.replacement.toList).map stripReturns =
          (Edit.spread groups).map stripReturns := by
    intro e he
    rcases mem_edits.mp (hperm.mem_iff.mp ((mem_sortBy _ _ e).mp he)) with
      ⟨n, hn, rfl⟩ | ⟨n, hn, rfl⟩
    · exact groups_documented h hnames hsep hn
    · exact groups_narrowed h hsep hn
  obtain ⟨groups, hrevised, hrows⟩ := Edit.mergeRows_spread hle habove (fun e he => (hform he).1)
    hout hin
  refine ⟨groups, hrevised, ?_⟩
  rw [Edit.merged, String.toList_ofList, hmerge, hrows]

/-! ### Texts without carriage returns -/

theorem Revised.return_notMem {line : List Char × Nat} {group : List Char × List (List Char)}
    (hrevised : s.Revised t line group) (h : '\r' ∉ t.source.toList) (hline : '\r' ∉ line.1) :
    ∀ row ∈ group.1 :: group.2, '\r' ∉ row := by
  have hfirst : '\r' ∉ group.1 := by
    by_cases hclause : ∃ n ∈ s.narrowed t, n.line = line.2
    · obtain ⟨n, hn, heq⟩ := hclause
      exact (hrevised.narrowed n hn heq).notMem (.inr rfl) hline
    · push Not at hclause
      rwa [hrevised.kept hclause]
  have hadded : ∀ row ∈ group.2, '\r' ∉ row := by
    by_cases hheader : ∃ n ∈ s.documented t, headerEnd n = line.2
    · obtain ⟨n, hn, heq⟩ := hheader
      rw [hrevised.documented n hn heq]
      intro row hrow
      obtain rfl := List.mem_singleton.mp hrow
      exact Docstring.notMem_row (.inr rfl) (return_notMem_functionName t n h)
    · push Not at hheader
      simp [hrevised.plain hheader]
  intro row hrow
  rcases List.mem_cons.mp hrow with rfl | hrow
  · exact hfirst
  · exact hadded row hrow

theorem return_notMem_edits (h : t.Ranged) (hsource : '\r' ∉ t.source.toList) {e : Edit}
    (he : e ∈ s.edits t) : '\r' ∉ e.replacement.toList := by
  rcases mem_edits.mp he with ⟨n, hn, rfl⟩ | ⟨n, hn, rfl⟩
  · obtain ⟨hmem, hf, -⟩ := mem_documented hn
    exact Docstring.return_notMem_fix? h hsource hmem hf (replacement_documented h hn)
  · have hplain := replacement_narrowed h hn []
    rw [List.append_nil, List.append_nil] at hplain
    exact hplain.notMem (.inr rfl) fun hreturn => hsource ((t.mem_lineText n.line).2 _ hreturn)

theorem return_notMem_merged (h : t.Ranged) (hsource : '\r' ∉ t.source.toList) {edits : List Edit}
    (hperm : edits.Perm (s.edits t)) : '\r' ∉ (Edit.merged t.source edits).toList :=
  Edit.return_notMem_merged hsource fun _ he => return_notMem_edits h hsource (hperm.mem_iff.mp he)

theorem return_notMem_spread (hsource : '\r' ∉ t.source.toList) {lines : List (List Char × Nat)}
    {groups : List (List Char × List (List Char))}
    (hrevised : List.Forall₂ (s.Revised t) lines groups)
    (hlines : ∀ line ∈ lines, '\r' ∉ line.1) : ∀ row ∈ Edit.spread groups, '\r' ∉ row := by
  induction hrevised with
  | nil => simp [Edit.spread]
  | @cons line group lines groups hfirst _ ih =>
    intro row hrow
    rw [Edit.spread, List.flatMap_cons] at hrow
    rcases List.mem_append.mp hrow with hrow | hrow
    · exact hfirst.return_notMem hsource (hlines line (by simp)) row hrow
    · exact ih (fun l hl => hlines l (by simp [hl])) row hrow

end Selection

namespace Engine

/-- With rules on docstrings and bare handlers only, a live run of the analysed plan that succeeds
keeps the rows of the source in order. The row of each handler with a fix is narrowed, each header
with a fix gets one new row below its last one, and all other rows are the same up to carriage
returns at their ends; without carriage returns in the source they are the same to the byte. -/
theorem local_fixes_keep_rows (e : Engine) (unit : SourceUnit) {tree : Tree}
    (hp : Tree.parse unit.source = .ok tree) (h : tree.Ranged) (hnames : tree.NamesOnRow)
    (hlocal : e.selection.IsLocal)
    (hsuccess : (e.execute unit.source (e.analyze unit) false).success = true) :
    ∃ text groups, (e.execute unit.source (e.analyze unit) false).after = some text ∧
      ((e.analyze unit).issues.filter (·.fix.isSome)).Perm
        ((e.selection.documented tree).map (Detect.Docstring.issue tree) ++
          (e.selection.narrowed tree).map (Detect.BareExcept.issue tree)) ∧
      List.Forall₂ (e.selection.Revised tree) ((splitAt '\n' unit.source.toList).zipIdx 1) groups ∧
      (splitAt '\n' text.toList).map stripReturns = (Edit.spread groups).map stripReturns ∧
      ('\r' ∉ unit.source.toList → splitAt '\n' text.toList = Edit.spread groups) := by
  have hsource : tree.source = unit.source := by rw [Tree.eq_of_parse hp]
  have hissues := hlocal.fixed_perm tree
  rw [Selection.issues, ← analyze_issues hp h] at hissues
  have hconfidence : ∀ i ∈ (e.selection.documented tree).map (Detect.Docstring.issue tree) ++
      (e.selection.narrowed tree).map (Detect.BareExcept.issue tree), i.confidence ≠ .refuse := by
    intro i hi
    have hhigh : i.confidence = .high := by
      rcases List.mem_append.mp hi with hi | hi
      · obtain ⟨n, -, rfl⟩ := List.mem_map.mp hi
        rfl
      · obtain ⟨n, -, rfl⟩ := List.mem_map.mp hi
        rfl
    simp [hhigh]
  have hperm : (e.analyze unit).fixes.Perm (e.selection.edits tree) :=
    Plan.fixes_perm hissues hconfidence
  obtain ⟨text, hafter⟩ := Execution.live_success_iff.mp hsuccess
  obtain ⟨-, -, happlied, -⟩ := Execution.live_after_iff.mp hafter
  obtain ⟨hfits, rfl⟩ := (Plan.applyAll_fixes_iff (e.analyze_first_le_last unit) _ _).mp happlied
  obtain ⟨groups, hrevised, hrows⟩ := Selection.rows_merged h hnames hperm hfits.2
  rw [hsource] at hrevised hrows
  refine ⟨_, groups, hafter, hissues, hrevised, hrows, fun hreturn => ?_⟩
  have hold : ∀ line ∈ (splitAt '\n' unit.source.toList).zipIdx 1, '\r' ∉ line.1 :=
    fun line hline hmem => hreturn ((mem_splitAt (List.fst_mem_of_mem_zipIdx hline)).2 _ hmem)
  have hnew := Selection.return_notMem_spread (hsource ▸ hreturn) hrevised hold
  have htext := Selection.return_notMem_merged h (hsource ▸ hreturn) hperm
  rw [hsource] at htext
  rwa [map_stripReturns_of_notMem fun row hrow hmem => htext ((mem_splitAt hrow).2 _ hmem),
    map_stripReturns_of_notMem hnew] at hrows

/-- A function with a handler, whose header and line have fixes. -/
theorem local_fixes_keep_rows_handler :
    let e : Engine := { selection := { only := some [.bareExcept, .missingDocstring] } }
    let unit : SourceUnit := ⟨"def f():\n try:\n  x\n except :\n  0\n", none⟩
    let text := "def f():\n \"\"\"TODO: document f.\"\"\"\n try:\n  x\n except Exception:\n  0\n"
    ∃ tree, Tree.parse unit.source = .ok tree ∧ tree.Ranged ∧ tree.NamesOnRow ∧
      e.selection.IsLocal ∧
      (e.execute unit.source (e.analyze unit) false).after = some text ∧
      (e.selection.documented tree).length = 1 ∧ (e.selection.narrowed tree).length = 1 ∧
      ∃ groups,
        List.Forall₂ (e.selection.Revised tree) ((splitAt '\n' unit.source.toList).zipIdx 1)
          groups ∧
        splitAt '\n' text.toList = Edit.spread groups := by
  intro e unit text
  let parsed : Tree := ⟨unit.source, Tree.rootOf unit.source.toList⟩
  let issues := e.selection.issues parsed
  have hfacts : Tree.validates unit.source = true ∧ parsed.Ranged ∧ parsed.NamesOnRow ∧
      isSafe (complexityOf issues) issues = true ∧
      Edit.applyAll unit.source (issues.filterMap Issue.edit?) = .ok text ∧
      Tree.validates text = true ∧
      (e.selection.documented parsed).length = 1 ∧ (e.selection.narrowed parsed).length = 1 := by
    decide +kernel
  obtain ⟨hvalid, hranged, hnames, hsafe, hedit, hresult, hdoc, hbare⟩ := hfacts
  obtain ⟨tree, hp⟩ := (Tree.validates_iff unit.source).mp hvalid
  have htree := Tree.eq_of_parse hp
  subst htree
  have hlocal : e.selection.IsLocal := by
    intro r
    cases r <;> decide
  have hafter := live_after_of_issues e unit hp hranged hsafe hedit hresult
  obtain ⟨text', groups, hafter', -, hrevised, -, hexact⟩ :=
    local_fixes_keep_rows e unit hp hranged hnames
    hlocal (Execution.live_success_iff.mpr ⟨text, hafter⟩)
  obtain rfl : text' = text := Option.some.inj (hafter'.symm.trans hafter)
  exact ⟨_, hp, hranged, hnames, hlocal, hafter, hdoc, hbare, groups, hrevised, hexact (by decide)⟩

end Engine

end SafeRefactor
