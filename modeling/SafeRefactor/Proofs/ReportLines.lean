import SafeRefactor.Proofs.DynamicExecution
import SafeRefactor.Proofs.FixTexts
import SafeRefactor.Proofs.Selecting
import SafeRefactor.Report

/-!
# The lines of a report

A report gives every issue the same lines, and the texts it quotes lines of their own behind a bar.
A line of the report is one row unless a text that is not quoted has a line feed in it. Among
descriptions and rationales only the list of what lacks a type can have one, since it repeats
parameters as they are written, over as many rows as they take.
-/

set_option autoImplicit false

namespace SafeRefactor

open Syntax Text

namespace Text

theorem notBlank_of_mem_words {cs word : List Char} (h : word ∈ words cs) :
    ∀ c ∈ word, isBlank c = false := by
  induction cs generalizing word with
  | nil => cases h
  | cons c cs ih =>
    unfold words at h
    split at h
    · exact ih h
    · next hc =>
      have hsingle : ∀ d ∈ [c], isBlank d = false := by simpa using hc
      split at h
      · rwa [List.mem_singleton.mp h]
      · split at h
        · rcases List.mem_cons.mp h with rfl | h
          · exact hsingle
          · exact ih h
        · split at h
          · rwa [List.mem_singleton.mp h]
          · next w rest hwords =>
            rw [hwords] at ih
            rcases List.mem_cons.mp h with rfl | h
            · exact List.forall_mem_cons.mpr ⟨hsingle c (by simp), ih (by simp)⟩
            · exact ih (by simp [h])

theorem mem_join_iff (sep : String) {c : Char} (hsep : c ∉ sep.toList) (parts : List String) :
    c ∈ (join sep parts).toList ↔ ∃ p ∈ parts, c ∈ p.toList := by
  rw [join, String.toList_intercalate]
  induction parts with
  | nil => simp [List.intercalate_nil]
  | cons p parts ih =>
    cases parts with
    | nil => simp [List.intercalate_singleton]
    | cons q parts =>
      rw [List.map_cons] at ih
      rw [List.map_cons, List.map_cons, List.intercalate_cons_cons, List.mem_append,
        List.mem_append, ih]
      simp [hsep]

theorem newline_notMem_lines {text line : String} (h : line ∈ lines text) : '\n' ∉ line.toList := by
  obtain ⟨i, hi⟩ := List.mem_iff_getElem?.mp h
  rw [lines, List.getElem?_map] at hi
  obtain ⟨piece, hpiece, rfl⟩ := Option.map_eq_some_iff.mp hi
  obtain ⟨tail, hrow, -⟩ := row_of_piece hpiece
  rw [String.toList_ofList]
  exact fun hn => (mem_splitAt (List.mem_of_getElem? hrow)).1 (List.mem_append_left tail hn)

end Text

namespace Syntax.Tree

variable {t : Tree}

/-- The text of a node has a line feed in it if it is spread over rows. -/
theorem Ranged.newline_mem_text_iff (h : t.Ranged) {n : Node} (hn : n ∈ t.root.preorder) :
    '\n' ∈ (t.text n).toList ↔ n.start.row ≠ n.stop.row := by
  refine ⟨fun hmem hrow => h.newline_notMem_text hn hrow hmem, ?_⟩
  intro hrow
  have hstart := h.start_liesIn n hn
  have hstop := h.stop_liesIn n hn
  have hsplit : t.source.toList.take n.stop.offset = t.source.toList.take n.start.offset ++ _ :=
    Point.take_eq_append (h.start_le_stop n hn)
  by_contra hnone
  rw [text, String.toList_ofList, ← List.drop_take] at hnone
  rw [hstart.row_eq, hstop.row_eq, hsplit, List.count_append, List.count_eq_zero.mpr hnone] at hrow
  exact hrow rfl

/-- The identifiers stand each on one row. -/
def IdentifiersOnRow (t : Tree) : Prop :=
  ∀ n ∈ t.root.preorder, n.has .identifier = true → n.start.row = n.stop.row

instance (t : Tree) : Decidable t.IdentifiersOnRow := inferInstanceAs (Decidable (∀ _ ∈ _, _))

end Syntax.Tree

namespace Detect

variable {t : Tree}

theorem NestedLoop.newline_notMem_abbreviate (text : String) : '\n' ∉ (abbreviate text).toList := by
  have hline : '\n' ∉ (join " " ((words text.toList).map String.ofList)).toList := by
    rw [mem_join_iff " " (by simp)]
    rintro ⟨p, hp, hmem⟩
    obtain ⟨word, hword, rfl⟩ := List.mem_map.mp hp
    rw [String.toList_ofList] at hmem
    have := notBlank_of_mem_words hword '\n' hmem
    exact absurd this (by decide)
  unfold abbreviate
  dsimp only
  split
  · exact hline
  · rw [String.toList_append, String.toList_ofList, List.mem_append, not_or]
    exact ⟨fun h => hline (List.mem_of_mem_take h), by simp⟩

/-- What an issue says on a single line. -/
structure Unbroken (i : Issue) : Prop where
  rationale : '\n' ∉ i.rationale.toList
  description : '\n' ∉ i.description.toList

theorem NestedLoop.issues_unbroken : ∀ i ∈ issues t, Unbroken i := by
  intro i hi
  obtain ⟨n, -, -, inner, outer, rfl⟩ := issues_report t i hi
  refine ⟨(Rule.plain_of_mem_rationales (r := .nestedLoop) (.head _)).onRow, ?_⟩
  simp [issue, newline_notMem_abbreviate]

theorem StringConcat.issues_unbroken (h : t.Ranged) (hrow : t.IdentifiersOnRow) :
    ∀ i ∈ issues t, Unbroken i := by
  intro i hi
  obtain ⟨g, hplace, hholds, rfl⟩ := exists_growth hi
  obtain ⟨left, hleft, hident, hname⟩ := hholds.left
  have hnode := (Cursor.mem_preorder_of_mem_sites (Tree.mem_sites_of_mem_places hplace)).1
  have hmem := Node.child_mem_preorder hnode (Node.child?_mem hleft)
  have hnewline := h.newline_notMem_text hmem (hrow left hmem hident)
  refine ⟨(Rule.plain_of_mem_rationales (r := .stringConcatInLoop) (.head _)).onRow, ?_⟩
  show '\n' ∉ ("String \x60" ++ g.name ++ "\x60 is rebuilt by concatenation inside a loop").toList
  simp [← hname, hnewline]

theorem Docstring.issues_unbroken (h : t.Ranged) (hnames : t.NamesOnRow) :
    ∀ i ∈ issues t, Unbroken i := by
  intro i hi
  obtain ⟨c, hc, rfl⟩ := List.mem_map.mp hi
  obtain ⟨hn, hf⟩ := mem_functions (List.mem_of_mem_filter hc)
  have hname := newline_notMem_functionName h hnames hn hf
  refine ⟨(Rule.plain_of_mem_rationales (r := .missingDocstring) (.head _)).onRow, ?_⟩
  simp [issue, hname]

theorem BareExcept.issues_unbroken : ∀ i ∈ issues t, Unbroken i := by
  intro i hi
  obtain ⟨n, -, rfl⟩ := List.mem_map.mp hi
  refine ⟨(Rule.plain_of_mem_rationales (r := .bareExcept) (.head _)).onRow, ?_⟩
  simp [issue]

theorem DynamicCode.issues_unbroken : ∀ i ∈ issues t, Unbroken i := by
  intro i hi
  rw [issues, List.mem_filterMap] at hi
  obtain ⟨n, -, hi⟩ := hi
  obtain ⟨builtin, hcalled, rfl⟩ := Option.map_eq_some_iff.mp hi
  have hmem : rationale builtin ∈ Rule.dynamicCodeExecution.rationales :=
    List.mem_map_of_mem (called?_mem hcalled).2
  obtain ⟨-, f, -, -, hname, rfl⟩ := (called?_eq_some_iff t n builtin).mp hcalled
  have hbuiltin : '\n' ∉ (t.text f).toList := by
    rcases hname with hname | hname
    all_goals simp [hname]
  refine ⟨(Rule.plain_of_mem_rationales hmem).onRow, ?_⟩
  show '\n' ∉ ("Call to \x60" ++ t.text f ++ "()\x60 executes dynamically constructed code").toList
  simp [hbuiltin]

namespace TypeCoverage

def parameters (n : Node) : List Node := ((n.child? .parameters).map Node.namedChildren).getD []

/-- Whether a parameter counts as lacking a type, unless it is a receiver. -/
def lacksType (n : Node) : Bool :=
  !(n.has .typedParameter || n.has .typedDefaultParameter || n.has .keywordSeparator ||
    n.has .positionalSeparator)

/-- What an issue shows of a parameter: its name if it has a default, else all of it. -/
def shown (n : Node) : Node := if n.has .defaultParameter then (n.child? .name).getD n else n

/-- A parameter that lacks a type is written over several rows. -/
def Spread (n : Node) : Prop :=
  ∃ p ∈ parameters n, lacksType p = true ∧ (shown p).start.row ≠ (shown p).stop.row

instance (n : Node) : Decidable (Spread n) := inferInstanceAs (Decidable (∃ _ ∈ _, _))

theorem placeOf_eq (t : Tree) (method : Bool) (position : Nat) (n : Node) :
    placeOf t method position n =
    if n.has .typedParameter || n.has .typedDefaultParameter then .annotated
    else if lacksType n && !(n.has .identifier && isReceiver method position (t.text n)) then
      .missing (t.text (shown n))
    else .exempt := by
  unfold placeOf
  split
  · next hkind => simp [Node.has, hkind]
  · next hkind => simp [Node.has, hkind]
  · next hkind => simp [Node.has, lacksType, hkind]
  · next hkind => simp [Node.has, lacksType, hkind]
  · next hkind =>
    cases isReceiver method position (t.text n) <;> simp [Node.has, lacksType, shown, hkind]
  · next hkind =>
    cases hname : n.child? .name <;> simp [Node.has, lacksType, shown, hkind, hname]
  · simp_all [Node.has, lacksType, shown]

variable {n : Node}

theorem shown_mem (hn : n ∈ t.root.preorder) : shown n ∈ t.root.preorder := by
  unfold shown
  split
  · cases hname : n.child? .name with
    | none => exact hn
    | some m => exact Node.child_mem_preorder hn (Node.child?_mem hname)
  · exact hn

/-- What a place contributes to the list of what lacks a type has a line feed in it. -/
def Breaks (p : Place) : Prop := ∃ name, p = .missing name ∧ '\n' ∈ name.toList

/-- A receiver is an identifier and so on one row. -/
theorem breaks_placeOf_iff (h : t.Ranged) (hrow : t.IdentifiersOnRow) (hn : n ∈ t.root.preorder)
    (method : Bool) (position : Nat) :
    Breaks (placeOf t method position n) ↔
      lacksType n = true ∧ (shown n).start.row ≠ (shown n).stop.row := by
  rw [← h.newline_mem_text_iff (shown_mem hn), placeOf_eq, Breaks]
  by_cases htyped : (n.has .typedParameter || n.has .typedDefaultParameter) = true
  · have hlacks : lacksType n = false := by simp [lacksType, htyped]
    simp [htyped, hlacks]
  · rw [if_neg htyped]
    by_cases hreceiver : (n.has .identifier && isReceiver method position (t.text n)) = true
    · have hident : n.has .identifier = true := (Bool.and_eq_true_iff.mp hreceiver).1
      have hshown : shown n = n := by simp [shown, Node.has, Node.kind_of_has hident]
      have hnewline := h.newline_notMem_text hn (hrow n hn hident)
      simp [hreceiver, hshown, hnewline]
    · simp only [hreceiver, Bool.not_false, Bool.and_true]
      by_cases hlacks : lacksType n = true
      · simp [hlacks]
      · simp [hlacks]

theorem breaks_placesFrom_iff (h : t.Ranged) (hrow : t.IdentifiersOnRow) {ns : List Node}
    (hns : ∀ n ∈ ns, n ∈ t.root.preorder) (method : Bool) (position : Nat) :
    (∃ p ∈ placesFrom t method position ns, Breaks p) ↔
      ∃ n ∈ ns, lacksType n = true ∧ (shown n).start.row ≠ (shown n).stop.row := by
  induction ns generalizing position with
  | nil => simp [placesFrom]
  | cons n ns ih =>
    have hn := breaks_placeOf_iff h hrow (hns n (by simp)) method position
    have hrest := ih (fun m hm => hns m (by simp [hm])) (position + 1)
    simp [placesFrom, hn, hrest]

theorem parameters_mem (hn : n ∈ t.root.preorder) : ∀ p ∈ parameters n, p ∈ t.root.preorder := by
  intro p hp
  unfold parameters at hp
  cases hc : n.child? .parameters with
  | none => simp [hc] at hp
  | some c =>
    have hp : p ∈ c.children := Node.namedChildren_subset (by simpa [hc] using hp)
    exact Node.child_mem_preorder (Node.child_mem_preorder hn (Node.child?_mem hc)) hp

theorem newline_mem_missing_iff (h : t.Ranged) (hrow : t.IdentifiersOnRow) {c : Cursor}
    (hc : c.node ∈ t.root.preorder) :
    (∃ name ∈ (Coverage.of t c).missing, '\n' ∈ name.toList) ↔ Spread c.node := by
  rw [Spread, ← breaks_placesFrom_iff h hrow (parameters_mem hc) (isMethod c) 0]
  have hreturn : ¬ Breaks (if (c.node.child? .returnType).isSome then .annotated
      else .missing "return") := by
    rintro ⟨name, hname, hmem⟩
    split at hname
    · cases hname
    · cases hname
      simp at hmem
  constructor
  · rintro ⟨name, hname, hmem⟩
    obtain ⟨p, hp, heq⟩ := List.mem_filterMap.mp hname
    have hbreaks : Breaks p := by
      cases p with
      | missing m => exact ⟨m, rfl, by rwa [Option.some.inj heq]⟩
      | annotated | exempt => cases heq
    rcases List.mem_append.mp hp with hp | hp
    · exact ⟨p, hp, hbreaks⟩
    · rw [List.mem_singleton.mp hp] at hbreaks
      exact absurd hbreaks hreturn
  · rintro ⟨p, hp, name, rfl, hmem⟩
    exact ⟨name, List.mem_filterMap.mpr ⟨.missing name, List.mem_append_left _ hp, rfl⟩, hmem⟩

theorem newline_mem_description_iff (h : t.Ranged) (hnames : t.NamesOnRow)
    (hrow : t.IdentifiersOnRow) {c : Cursor} (hc : c ∈ t.functions) :
    '\n' ∈ (issue t (.of t c)).description.toList ↔ Spread c.node := by
  obtain ⟨hn, hf⟩ := mem_functions hc
  have hname := newline_notMem_functionName h hnames hn hf
  rw [← newline_mem_missing_iff h hrow hn, ← mem_join_iff ", " (by simp)]
  simp [issue, Coverage.of, hname]

end TypeCoverage

end Detect

namespace Rule

variable {t : Tree}

/-- No rationale has a line feed in it, and only a list of what lacks a type has one among
descriptions. -/
theorem newline_mem_issue_iff (h : t.Ranged) (hnames : t.NamesOnRow) (hrow : t.IdentifiersOnRow)
    (r : Rule) :
    ∀ i ∈ r.issues t, '\n' ∉ i.rationale.toList ∧ ('\n' ∈ i.description.toList ↔
      ∃ c ∈ t.functions, i = Detect.TypeCoverage.issue t (.of t c) ∧
      Detect.TypeCoverage.Spread c.node) := by
  intro i hi
  have hunbroken (hall : ∀ j ∈ r.issues t, Detect.Unbroken j) (hne : r ≠ .missingTypeHint) :
      '\n' ∉ i.rationale.toList ∧ ('\n' ∈ i.description.toList ↔
        ∃ c ∈ t.functions, i = Detect.TypeCoverage.issue t (.of t c) ∧
          Detect.TypeCoverage.Spread c.node) := by
    refine ⟨(hall i hi).rationale, iff_of_false (hall i hi).description ?_⟩
    rintro ⟨c, -, rfl, -⟩
    exact hne (r.issues_keep h _ hi).rule_eq.symm
  cases r with
  | stringConcatInLoop => exact hunbroken (Detect.StringConcat.issues_unbroken h hrow) nofun
  | nestedLoop => exact hunbroken Detect.NestedLoop.issues_unbroken nofun
  | missingDocstring => exact hunbroken (Detect.Docstring.issues_unbroken h hnames) nofun
  | bareExcept => exact hunbroken Detect.BareExcept.issues_unbroken nofun
  | dynamicCodeExecution => exact hunbroken Detect.DynamicCode.issues_unbroken nofun
  | missingTypeHint =>
    obtain ⟨_, hcoverage, rfl⟩ := Detect.TypeCoverage.mem_issuesFrom hi
    obtain ⟨c, hc, rfl⟩ := List.mem_map.mp hcoverage
    refine ⟨(plain_of_mem_rationales (r := .missingTypeHint) (.head _)).onRow, ?_⟩
    constructor
    · intro hmem
      exact ⟨c, hc, rfl, (Detect.TypeCoverage.newline_mem_description_iff h hnames hrow hc).mp hmem⟩
    · rintro ⟨d, hd, heq, hspread⟩
      rw [heq]
      exact (Detect.TypeCoverage.newline_mem_description_iff h hnames hrow hd).mpr hspread

end Rule

namespace Report

/-- The rows of a list of lines, each ended by a line feed, are the lines if none has one in it. -/
theorem rows_lines_iff (ls : List String) :
    splitAt '\n' (String.join (ls.map (· ++ "\n"))).toList = ls.map String.toList ++ [[]] ↔
      ∀ l ∈ ls, '\n' ∉ l.toList := by
  constructor
  · intro h l hl
    have hmem : l.toList ∈ splitAt '\n' (String.join (ls.map (· ++ "\n"))).toList := by
      rw [h]
      exact List.mem_append_left _ (List.mem_map_of_mem hl)
    exact (mem_splitAt hmem).1
  · intro h
    have hrows : ∀ row ∈ ls.map String.toList, '\n' ∉ row := by
      intro row hrow
      obtain ⟨l, hl, rfl⟩ := List.mem_map.mp hrow
      exact h l hl
    have hsplit := splitAt_flatten hrows []
    rw [List.append_nil, List.map_map] at hsplit
    rw [String.toList_join, List.flatMap_map, List.flatMap_def]
    simpa [Function.comp_def, splitAt] using hsplit

theorem newline_notMem_blockLines (text : String) : ∀ l ∈ blockLines text, '\n' ∉ l.toList := by
  intro l hl
  obtain ⟨line, hline, rfl⟩ := List.mem_map.mp hl
  exact notMem_append (by simp) (newline_notMem_lines hline)

theorem newline_notMem_digits (n : Nat) : '\n' ∉ Nat.toDigits 10 n := by
  intro h
  have hdigit := Nat.isDigit_of_mem_toDigits (by decide) (by decide) h
  exact absurd hdigit (by decide)

/-- Of the lines about an issue only those with the description and the rationale can have line
feeds. -/
theorem newline_notMem_issueLines_iff (i : Issue) : (∀ l ∈ issueLines i, '\n' ∉ l.toList) ↔
    '\n' ∉ i.description.toList ∧ '\n' ∉ i.rationale.toList := by
  have hrule : '\n' ∉ i.rule.name.toList := by cases i.rule <;> simp [Rule.name]
  have hseverity : '\n' ∉ i.severity.title.toList := by cases i.severity <;> simp [Severity.title]
  have hconfidence : '\n' ∉ i.confidence.title.toList := by
    cases i.confidence <;> simp [Confidence.title]
  have hblocks := newline_notMem_blockLines
  rw [issueLines, List.forall_mem_append, List.forall_mem_append, and_iff_left (hblocks i.snippet),
    and_iff_left]
  · simp [hrule, hseverity, hconfidence, newline_notMem_digits, toString]
  · cases i.fix with
    | none => simp
    | some f => exact List.forall_mem_cons.mpr ⟨by simp, hblocks f⟩

theorem newline_notMem_categoryLines_iff (p : Plan) (c : Category) :
    (∀ l ∈ categoryLines p c, '\n' ∉ l.toList) ↔
      ∀ i ∈ p.issuesIn c, '\n' ∉ i.description.toList ∧ '\n' ∉ i.rationale.toList := by
  have htitle : '\n' ∉ c.title.toList := by cases c <;> simp [Category.title]
  have hheader : ∀ l ∈ ["", "## " ++ c.title ++ s!" ({(p.issuesIn c).length})"],
      '\n' ∉ l.toList := by
    simp [htitle, newline_notMem_digits, toString]
  rw [categoryLines]
  simp only [List.forall_mem_append, and_iff_right hheader]
  cases hissues : p.issuesIn c with
  | nil => simp
  | cons i is =>
    simp only [List.isEmpty_cons, Bool.false_eq_true, if_false, List.forall_mem_flatMap,
      newline_notMem_issueLines_iff]

theorem newline_notMem_categories_iff (p : Plan) :
    (∀ l ∈ Category.all.flatMap (categoryLines p), '\n' ∉ l.toList) ↔
      ∀ i ∈ p.issues, '\n' ∉ i.description.toList ∧ '\n' ∉ i.rationale.toList := by
  simp only [List.forall_mem_flatMap, newline_notMem_categoryLines_iff, Plan.issuesIn,
    List.mem_filter, decide_eq_true_eq]
  constructor
  · intro h i hi
    exact h i.category (by cases i.category <;> decide) i ⟨hi, rfl⟩
  · intro h c _ i hi
    exact h i hi.1

/-- The report on a plan that is not refused has no rows but its lines if no issue has a line feed
in what is said about it, and only then. -/
theorem rows_render_iff {p : Plan} (hrefusal : p.refusal = none) (hfailures : p.failures = [])
    (hid : ∀ id ∈ p.sourceId, '\n' ∉ id.toList) :
    splitAt '\n' (render p none).toList = (lines p none).map String.toList ++ [[]] ↔
      ∀ i ∈ p.issues, '\n' ∉ i.description.toList ∧ '\n' ∉ i.rationale.toList := by
  have hsource : '\n' ∉ (p.sourceId.getD "<input>").toList := by
    cases hp : p.sourceId with
    | none => simp
    | some id => exact hid id hp
  have hstate : '\n' ∉ p.state.title.toList := by cases p.state <;> simp [State.title]
  have hcomplexity : '\n' ∉ p.complexity.title.toList := by
    cases p.complexity <;> simp [Complexity.title]
  have hsafe : '\n' ∉ (yesNo p.safeToApply).toList := by cases p.safeToApply <;> simp [yesNo]
  rw [render, rows_lines_iff, ← newline_notMem_categories_iff]
  simp only [lines, hrefusal, failureLines, hfailures, List.forall_mem_append]
  simp [hsource, hstate, hcomplexity, hsafe, newline_notMem_digits, toString]

end Report

namespace Engine

variable {unit : SourceUnit} {tree : Tree}

/-- In an analysed plan no rationale has a line feed, and a description has one exactly if it lists
a parameter without a type that is written over several rows. If no description has one, the rows of
the report are its lines. -/
theorem analyze_single_lines (e : Engine) (hp : Tree.parse unit.source = .ok tree) (h : tree.Ranged)
    (hnames : tree.NamesOnRow) (hrow : tree.IdentifiersOnRow) :
    (∀ i ∈ (e.analyze unit).issues, '\n' ∉ i.rationale.toList ∧ ('\n' ∈ i.description.toList ↔
      ∃ c ∈ tree.functions, i = Detect.TypeCoverage.issue tree (.of tree c) ∧
        Detect.TypeCoverage.Spread c.node)) ∧
    (∀ i ∈ (e.analyze unit).issues,
      splitAt '\n' (String.join ((Report.issueLines i).map (· ++ "\n"))).toList =
        (Report.issueLines i).map String.toList ++ [[]] ↔ '\n' ∉ i.description.toList) ∧
    ((∀ id ∈ unit.id, '\n' ∉ id.toList) →
      (splitAt '\n' (Report.render (e.analyze unit) none).toList =
        (Report.lines (e.analyze unit) none).map String.toList ++ [[]] ↔
          ∀ i ∈ (e.analyze unit).issues, '\n' ∉ i.description.toList)) := by
  have hissues : ∀ i ∈ (e.analyze unit).issues, '\n' ∉ i.rationale.toList ∧
      ('\n' ∈ i.description.toList ↔
      ∃ c ∈ tree.functions, i = Detect.TypeCoverage.issue tree (.of tree c) ∧
        Detect.TypeCoverage.Spread c.node) := by
    intro i hi
    rw [analyze_issues hp h, List.mem_flatMap] at hi
    obtain ⟨r, -, hi⟩ := hi
    rw [mem_sortBy] at hi
    exact r.newline_mem_issue_iff h hnames hrow i hi
  refine ⟨hissues, ?_, ?_⟩
  · intro i hi
    rw [Report.rows_lines_iff, Report.newline_notMem_issueLines_iff, and_iff_left (hissues i hi).1]
  · intro hid
    have hplan := analyze_of_parse (e := e) hp
    rw [Report.rows_render_iff (by rw [hplan]; rfl) (analyze_failures hp h)
      (by rw [hplan]; exact hid)]
    exact forall₂_congr fun i hi => and_iff_left (hissues i hi).1

/-- The star and the name of a parameter stand on two rows, so the description takes two, and the
rows of the report are not its lines. -/
theorem analyze_single_lines_starred :
    let unit : SourceUnit := ⟨"def f(x: int): 0\ndef g(*\n a): 0\n", none⟩
    let plan := ({} : Engine).analyze unit
    (∃ tree, Tree.parse unit.source = .ok tree ∧ tree.Ranged ∧ tree.NamesOnRow ∧
      tree.IdentifiersOnRow) ∧
      (∃ i ∈ plan.issues, '\n' ∈ i.description.toList) ∧
      splitAt '\n' (Report.render plan none).toList ≠
        (Report.lines plan none).map String.toList ++ [[]] := by
  intro unit plan
  have hfacts : Tree.validates unit.source = true ∧
      let tree : Tree := ⟨unit.source, Tree.rootOf unit.source.toList⟩
      tree.Ranged ∧ tree.NamesOnRow ∧ tree.IdentifiersOnRow ∧
        (∃ i ∈ Detect.TypeCoverage.issues tree, i.line = 2) ∧
        ∀ c ∈ tree.functions, c.node.line = 2 → Detect.TypeCoverage.Spread c.node := by
    decide +kernel
  obtain ⟨hvalid, h, hnames, hrow, ⟨i, hi, hline⟩, hspread⟩ := hfacts
  obtain ⟨tree, hp⟩ := (Tree.validates_iff unit.source).mp hvalid
  rw [← Tree.eq_of_parse hp] at h hnames hrow hi hspread
  obtain ⟨hissues, -, hreport⟩ := analyze_single_lines {} hp h hnames hrow
  have hmem : i ∈ plan.issues := by
    rw [analyze_issues hp h, List.mem_flatMap]
    exact ⟨.missingTypeHint, by decide, (mem_sortBy _ _ _).mpr hi⟩
  obtain ⟨_, hcoverage, rfl⟩ := Detect.TypeCoverage.mem_issuesFrom hi
  obtain ⟨c, hc, rfl⟩ := List.mem_map.mp hcoverage
  have hnewline := (hissues _ hmem).2.mpr ⟨c, hc, rfl, hspread c hc hline⟩
  refine ⟨⟨tree, hp, h, hnames, hrow⟩, ⟨_, hmem, hnewline⟩, ?_⟩
  intro hrows
  exact (hreport (by simp [unit])).mp hrows _ hmem hnewline

end Engine

end SafeRefactor
