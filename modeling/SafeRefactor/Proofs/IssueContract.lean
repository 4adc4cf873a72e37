import SafeRefactor.Proofs.BuiltPlans
import SafeRefactor.Proofs.Concatenations
import SafeRefactor.Proofs.Ranges
import SafeRefactor.Proofs.SafePlans

/-!
# The contract of the detectors

Each detector works out the lines of its issues in its own way. On a tree whose ranges are as a
parser leaves them, all of them keep one contract: the lines are lines of the text, the anchor is
among them, the snippet is their text, and the grading is that of the rule. So no detector is ever
skipped, and a dry run of an analysed plan succeeds whenever the text parses.
-/

set_option autoImplicit false

namespace SafeRefactor

open Syntax

namespace Detect.NestedLoop

/-- The issue is about a loop at or below a node. -/
def Reports (t : Tree) (n : Node) (i : Issue) : Prop :=
  ∃ m ∈ n.preorder, (m.has .forStatement = true ∨ m.has .forInClause = true) ∧ ∃ inner outer,
    i = issue t m inner outer

variable {t : Tree}

theorem Reports.of_child {c n : Node} {i : Issue} (hc : c ∈ n.children) (h : Reports t c i) :
    Reports t n i := by
  obtain ⟨m, hm, hloop, hi⟩ := h
  exact ⟨m, Node.mem_preorder_of_child hc hm, hloop, hi⟩

theorem check_reports {stack : List Enclosing} {n : Node}
    (hn : n.has .forStatement = true ∨ n.has .forInClause = true) :
    ∀ i ∈ check t stack n, Reports t n i := by
  intro i hi
  unfold check at hi
  split at hi
  · simp at hi
  · simp only at hi
    split at hi
    · rw [List.mem_singleton] at hi
      exact ⟨n, n.self_mem_preorder, hn, _, _, hi⟩
    · simp at hi

/-- A visit of a node reports only loops at or below it. -/
def VisitReports (t : Tree) (n : Node) : Prop := ∀ stack, ∀ i ∈ (visit t n stack).2, Reports t n i

theorem visitAll_reports {ns : List Node} (h : ∀ n ∈ ns, VisitReports t n)
    (stack : List Enclosing) :
    ∀ i ∈ (visitAll t ns stack).2, ∃ n ∈ ns, Reports t n i := by
  induction ns generalizing stack with
  | nil => simp [visitAll]
  | cons n ns ih =>
    intro i hi
    simp only [visitAll, List.mem_append] at hi
    rcases hi with hi | hi
    · exact ⟨n, by simp, h n (by simp) stack i hi⟩
    · obtain ⟨m, hm, hr⟩ := ih (fun m hm => h m (by simp [hm])) _ i hi
      exact ⟨m, by simp [hm], hr⟩

theorem visitParts_reports (own : Enclosing) {ns : List Node} (h : ∀ n ∈ ns, VisitReports t n)
    (stack : List Enclosing) : ∀ i ∈ (visitParts t own ns stack).2, ∃ n ∈ ns, Reports t n i := by
  induction ns generalizing stack with
  | nil => simp [visitParts]
  | cons n ns ih =>
    intro i hi
    simp only [visitParts, List.mem_append] at hi
    rcases hi with hi | hi
    · refine ⟨n, by simp, ?_⟩
      split at hi
      · exact h n (by simp) _ i hi
      · exact h n (by simp) _ i hi
    · obtain ⟨m, hm, hr⟩ := ih (fun m hm => h m (by simp [hm])) _ i hi
      exact ⟨m, by simp [hm], hr⟩

theorem visitIterable_reports {ns : List Node} (h : ∀ n ∈ ns, VisitReports t n)
    (stack : List Enclosing) :
    ∀ i ∈ (visitIterable t ns stack).2, ∃ n ∈ ns, Reports t n i := by
  induction ns with
  | nil => simp [visitIterable]
  | cons n ns ih =>
    intro i hi
    rw [visitIterable] at hi
    split at hi
    · exact ⟨n, by simp, h n (by simp) stack i hi⟩
    · obtain ⟨m, hm, hr⟩ := ih (fun m hm => h m (by simp [hm])) i hi
      exact ⟨m, by simp [hm], hr⟩

theorem visitClauses_reports {ns : List Node} (h : ∀ n ∈ ns, ∀ c ∈ n.children, VisitReports t c)
    (stack : List Enclosing) : ∀ i ∈ (visitClauses t ns stack).2, ∃ n ∈ ns, Reports t n i := by
  induction ns generalizing stack with
  | nil => simp [visitClauses]
  | cons n ns ih =>
    have hlater (stack : List Enclosing) (i : Issue) (hi : i ∈ (visitClauses t ns stack).2) :
        ∃ m ∈ n :: ns, Reports t m i := by
      obtain ⟨m, hm, hr⟩ := ih (fun m hm => h m (by simp [hm])) stack i hi
      exact ⟨m, by simp [hm], hr⟩
    intro i hi
    cases n with
    | mk l cs =>
      rw [visitClauses] at hi
      split at hi
      · next hclause =>
        simp only [List.mem_append] at hi
        rcases hi with (hi | hi) | hi
        · obtain ⟨c, hc, hr⟩ := visitIterable_reports (h (.mk l cs) (by simp)) stack i hi
          exact ⟨.mk l cs, by simp, hr.of_child hc⟩
        · exact ⟨.mk l cs, by simp, check_reports (.inr hclause) i hi⟩
        · exact hlater _ i hi
      · exact hlater _ i hi

theorem visitRest_reports {ns : List Node} (h : ∀ n ∈ ns, VisitReports t n)
    (stack : List Enclosing) :
    ∀ i ∈ (visitRest t ns stack).2, ∃ n ∈ ns, Reports t n i := by
  induction ns generalizing stack with
  | nil => simp [visitRest]
  | cons n ns ih =>
    intro i hi
    simp only [visitRest, List.mem_append] at hi
    rcases hi with hi | hi
    · refine ⟨n, by simp, ?_⟩
      split at hi
      · simp at hi
      · exact h n (by simp) _ i hi
    · obtain ⟨m, hm, hr⟩ := ih (fun m hm => h m (by simp [hm])) _ i hi
      exact ⟨m, by simp [hm], hr⟩

/-- The clauses of a comprehension visit what lies two levels below it, so that the induction
carries the children along. -/
theorem visit_reports (n : Node) : VisitReports t n ∧ ∀ c ∈ n.children, VisitReports t c := by
  induction n using Node.induction with
  | node l cs ih =>
    have hcs : ∀ c ∈ cs, VisitReports t c := fun c hc => (ih c hc).1
    refine ⟨?_, hcs⟩
    intro stack i hi
    have hchild : (∃ c ∈ cs, Reports t c i) → Reports t (.mk l cs) i := by
      rintro ⟨c, hc, hr⟩
      exact hr.of_child hc
    simp only [visit] at hi
    split at hi
    · exact hchild (visitAll_reports hcs _ i hi)
    · split at hi
      · next form hkind =>
        split at hi
        · next hfor =>
          rw [List.mem_append] at hi
          rcases hi with hi | hi
          · exact check_reports (.inl (by simp [Node.has, Node.kind, Node.label, hkind, hfor])) i hi
          · exact hchild (visitParts_reports _ hcs _ i hi)
        · split at hi
          · rw [List.mem_append] at hi
            rcases hi with hi | hi
            · exact hchild (visitClauses_reports (fun c hc => (ih c hc).2) _ i hi)
            · exact hchild (visitRest_reports hcs _ i hi)
          · exact hchild (visitAll_reports hcs _ i hi)
      · exact hchild (visitAll_reports hcs _ i hi)

theorem issues_report (t : Tree) : ∀ i ∈ issues t, Reports t t.root i := by
  intro i hi
  obtain ⟨c, hc, hr⟩ := visitAll_reports (visit_reports t.root).2 [] i hi
  exact hr.of_child hc

end Detect.NestedLoop

/-- Whether issues of the rule are left to people: they never come with a fix. -/
def Rule.isAdvisory : Rule → Bool
  | .nestedLoop | .missingTypeHint | .dynamicCodeExecution => true
  | .stringConcatInLoop | .missingDocstring | .bareExcept => false

/-- The texts that say why the issues of the rule are reported. -/
def Rule.rationales : Rule → List String
  | .stringConcatInLoop => [Detect.StringConcat.rationale]
  | .nestedLoop => [Detect.NestedLoop.rationale]
  | .missingDocstring => [Detect.Docstring.rationale]
  | .missingTypeHint => [Detect.TypeCoverage.rationale]
  | .bareExcept => [Detect.BareExcept.rationale]
  | .dynamicCodeExecution => Detect.DynamicCode.builtins.map Detect.DynamicCode.rationale

namespace Text

theorem notMem_ofList {c : Char} {cs : List Char} (h : c ∉ cs) : c ∉ (String.ofList cs).toList := by
  rwa [String.toList_ofList]

theorem notMem_append {c : Char} {a b : String} (ha : c ∉ a.toList) (hb : c ∉ b.toList) :
    c ∉ (a ++ b).toList := by
  rw [String.toList_append, List.mem_append, not_or]
  exact ⟨ha, hb⟩

/-- The text is part of one row and does not begin with a blank. -/
structure Plain (text : String) : Prop where
  begins : ∃ c, Begins c text ∧ isBlank c = false
  onRow : '\n' ∉ text.toList

theorem plain_ofList {c : Char} {cs : List Char} (hc : isBlank c = false) (h : '\n' ∉ c :: cs) :
    Plain (String.ofList (c :: cs)) :=
  ⟨⟨c, begins_ofList c cs, hc⟩, notMem_ofList h⟩

theorem Plain.append {a b : String} (ha : Plain a) (hb : '\n' ∉ b.toList) : Plain (a ++ b) where
  begins := by
    obtain ⟨c, hc, hblank⟩ := ha.begins
    exact ⟨c, hc.append b, hblank⟩
  onRow := notMem_append ha.onRow hb

end Text

theorem Rule.plain_of_mem_rationales {r : Rule} {text : String} (h : text ∈ r.rationales) :
    Text.Plain text := by
  cases r with
  | stringConcatInLoop | nestedLoop | missingDocstring | missingTypeHint | bareExcept =>
    obtain rfl := List.mem_singleton.mp h
    apply Text.Plain.append
    iterate 3 try with_reducible apply Text.Plain.append
    · exact Text.plain_ofList (by decide) (by decide +kernel)
    all_goals exact Text.notMem_ofList (by decide +kernel)
  | dynamicCodeExecution =>
    obtain ⟨builtin, hbuiltin, rfl⟩ := List.mem_map.mp h
    have hrows : ∀ b ∈ Detect.DynamicCode.builtins, '\n' ∉ b.toList := by decide +kernel
    iterate 4 apply Text.Plain.append
    · exact (Text.plain_ofList (by decide) (by decide)).append (hrows builtin hbuiltin)
    all_goals exact Text.notMem_ofList (by decide +kernel)

namespace Issue

/-- The lines of an issue are lines of the text with the anchor among them, and the snippet is their
text. -/
structure Located (t : Tree) (i : Issue) : Prop where
  first_pos : 1 ≤ i.range.first
  first_le : i.range.first ≤ i.line
  le_last : i.line ≤ i.range.last
  last_le : i.range.last ≤ t.lines.length
  snippet_eq : i.snippet = t.linesText i.range.first i.range.last

/-- The issue is graded as its rule demands, and it says why. -/
structure Graded (r : Rule) (i : Issue) : Prop where
  rule_eq : i.rule = r
  category_eq : i.category = r.category
  severity_eq : i.severity = r.policy.severity
  confidence_eq : i.confidence = r.policy.confidence
  fix_none : r.isAdvisory = true → i.fix = none
  rationale : ∃ c, Text.Begins c i.rationale ∧ Text.isBlank c = false

/-- What every issue of a rule promises. -/
structure KeepsContract (t : Tree) (r : Rule) (i : Issue) : Prop extends Located t i, Graded r i

variable {t : Tree} {i : Issue} {r : Rule}

theorem Located.of_range {last : Nat} (hrange : i.range = .of i.line last) (hpos : 1 ≤ i.line)
    (hline : i.line ≤ t.lines.length) (hlast : last ≤ t.lines.length)
    (hsnippet : i.snippet = t.linesText i.range.first i.range.last) : i.Located t where
  first_pos := by simpa [hrange, LineRange.of] using hpos
  first_le := by simp [hrange, LineRange.of]
  le_last := by simp [hrange, LineRange.of]
  last_le := by simp [hrange, LineRange.of, hline, hlast]
  snippet_eq := hsnippet

theorem Located.of_single (hrange : i.range = .single i.line) (hpos : 1 ≤ i.line)
    (hline : i.line ≤ t.lines.length) (hsnippet : i.snippet = t.lineText i.line) : i.Located t := by
  refine .of_range hrange hpos hline hline ?_
  rw [hsnippet, ← t.linesText_single hpos hline, hrange]
  simp [LineRange.single, LineRange.of]

theorem KeepsContract.honours (h : i.KeepsContract t r) : i.Honours r.detector where
  rule_eq := h.rule_eq
  severity_eq := h.severity_eq
  confidence_eq := h.confidence_eq
  rationale := by
    obtain ⟨c, hc, hblank⟩ := h.rationale
    exact ⟨c, List.mem_of_head? hc, hblank⟩
  line_pos := h.first_pos.trans h.first_le
  first_le := h.first_le
  le_last := h.le_last
  fix_none hrefused := by
    have hpolicy : r.policy.confidence = .refuse → r.isAdvisory = true := by cases r <;> decide
    exact h.fix_none (hpolicy (h.confidence_eq.symm.trans hrefused))

end Issue

namespace Detect

variable {t : Tree}

theorem headerEnd_le (h : t.Ranged) {n : Node} (hn : n ∈ t.root.preorder)
    (hf : n.has .functionDefinition = true) : headerEnd n ≤ t.lines.length := by
  unfold headerEnd
  cases hcolon : headerColon? n with
  | none => exact h.line_le hn (Node.isSolid_of_has hf rfl)
  | some c =>
    have hc : c ∈ n.children := List.mem_of_find?_eq_some hcolon
    have htoken : c.isToken ":" = true := by simpa using List.find?_some hcolon
    exact h.line_le (Node.child_mem_preorder hn hc) (Node.isSolid_of_isToken htoken)

theorem mem_functions {c : Cursor} (hc : c ∈ t.functions) :
    c.node ∈ t.root.preorder ∧ c.node.has .functionDefinition = true := by
  have hnode : c.node ∈ t.functions.map (·.node) := List.mem_map_of_mem hc
  rwa [t.functions_nodes, List.mem_filter] at hnode

theorem BareExcept.issues_keep (h : t.Ranged) : ∀ i ∈ issues t, i.KeepsContract t .bareExcept := by
  intro i hi
  obtain ⟨n, hn, rfl⟩ := List.mem_map.mp hi
  rw [t.nodes_eq_preorder, List.mem_filter, Bool.and_eq_true] at hn
  obtain ⟨hn, hclause, -⟩ := hn
  exact {
    toLocated := .of_single rfl (Node.line_pos _)
      (h.line_le hn (Node.isSolid_of_has hclause rfl)) rfl
    toGraded := ⟨rfl, rfl, rfl, rfl, nofun,
      (Rule.plain_of_mem_rationales (r := .bareExcept) (.head _)).begins⟩ }

theorem Docstring.issues_keep (h : t.Ranged) :
    ∀ i ∈ issues t, i.KeepsContract t .missingDocstring := by
  intro i hi
  obtain ⟨c, hc, rfl⟩ := List.mem_map.mp hi
  obtain ⟨hn, hf⟩ := mem_functions (List.mem_of_mem_filter hc)
  exact {
    toLocated := .of_range rfl (Node.line_pos _) (h.line_le hn (Node.isSolid_of_has hf rfl))
      (headerEnd_le h hn hf) rfl
    toGraded := ⟨rfl, rfl, rfl, rfl, nofun,
      (Rule.plain_of_mem_rationales (r := .missingDocstring) (.head _)).begins⟩ }

theorem TypeCoverage.mem_issuesFrom {before : Bool} {cs : List Coverage} {i : Issue}
    (hi : i ∈ issuesFrom t before cs) : ∃ c ∈ cs, i = issue t c := by
  induction cs generalizing before with
  | nil => simp [issuesFrom] at hi
  | cons c cs ih =>
    simp only [issuesFrom, List.mem_append] at hi
    rcases hi with hi | hi
    · split at hi
      · exact ⟨c, by simp, List.mem_singleton.mp hi⟩
      · simp at hi
    · obtain ⟨d, hd, hid⟩ := ih hi
      exact ⟨d, by simp [hd], hid⟩

theorem TypeCoverage.issues_keep (h : t.Ranged) :
    ∀ i ∈ issues t, i.KeepsContract t .missingTypeHint := by
  intro i hi
  obtain ⟨c, hc, rfl⟩ := mem_issuesFrom hi
  obtain ⟨site, hsite, rfl⟩ := List.mem_map.mp hc
  obtain ⟨hn, hf⟩ := mem_functions hsite
  exact {
    toLocated := .of_range rfl (Node.line_pos _) (h.line_le hn (Node.isSolid_of_has hf rfl))
      (headerEnd_le h hn hf) rfl
    toGraded := ⟨rfl, rfl, rfl, rfl, fun _ => rfl,
      (Rule.plain_of_mem_rationales (r := .missingTypeHint) (.head _)).begins⟩ }

theorem DynamicCode.called?_mem {n : Node} {builtin : String} (h : called? t n = some builtin) :
    n.has .call = true ∧ builtin ∈ builtins := by
  unfold called? at h
  split at h
  · next hcall =>
    split at h
    · split at h
      · next hname =>
        rw [Bool.and_eq_true, List.contains_iff_mem] at hname
        exact ⟨hcall, Option.some.inj h ▸ hname.2⟩
      · cases h
    · cases h
  · cases h

theorem DynamicCode.issues_keep (h : t.Ranged) :
    ∀ i ∈ issues t, i.KeepsContract t .dynamicCodeExecution := by
  intro i hi
  rw [issues, t.nodes_eq_preorder, List.mem_filterMap] at hi
  obtain ⟨n, hn, hi⟩ := hi
  obtain ⟨builtin, hcalled, rfl⟩ := Option.map_eq_some_iff.mp hi
  obtain ⟨hcall, hbuiltin⟩ := called?_mem hcalled
  have hsolid : n.isSolid = true := Node.isSolid_of_has hcall rfl
  exact {
    toLocated := .of_range rfl (Node.line_pos _) (h.line_le hn hsolid) (h.endLine_le hn hsolid) rfl
    toGraded := ⟨rfl, rfl, rfl, rfl, fun _ => rfl,
      (Rule.plain_of_mem_rationales (r := .dynamicCodeExecution)
        (List.mem_map_of_mem hbuiltin)).begins⟩ }

theorem NestedLoop.issues_keep (h : t.Ranged) : ∀ i ∈ issues t, i.KeepsContract t .nestedLoop := by
  intro i hi
  obtain ⟨n, hn, hloop, inner, outer, rfl⟩ := issues_report t i hi
  have hsolid : n.isSolid = true := by
    rcases hloop with hloop | hloop
    · exact Node.isSolid_of_has hloop rfl
    · exact Node.isSolid_of_has hloop rfl
  exact {
    toLocated := .of_single rfl (Node.line_pos _) (h.line_le hn hsolid) rfl
    toGraded := ⟨rfl, rfl, rfl, rfl, fun _ => rfl,
      (Rule.plain_of_mem_rationales (r := .nestedLoop) (.head _)).begins⟩ }

namespace StringConcat

/-- A statement that is all a loop does is not past the end of the loop. -/
theorem Joinable.line_le_endLine (h : t.Ranged) {loop : Node} {a : Accumulation}
    (hj : Joinable t loop a)
    (hloop : loop ∈ t.root.preorder) (hsolid : a.statement.isSolid = true) :
    a.statement.line ≤ loop.endLine := by
  have hmem : a.statement ∈ loop.preorder := bodyStatements_subset (by simp [hj.sole])
  exact h.line_le_endLine hloop hmem hsolid

theorem issues_keep (h : t.Ranged) : ∀ i ∈ issues t, i.KeepsContract t .stringConcatInLoop := by
  intro i hi
  obtain ⟨g, hplace, hholds, rfl⟩ := exists_growth hi
  have hmem := g.statement_mem hplace
  have hsolid := Node.isSolid_of_isAssigning (g.isAssigning hplace hholds)
  refine { toLocated := ?_, toGraded := ⟨rfl, rfl, rfl, rfl, nofun,
      (Rule.plain_of_mem_rationales (r := .stringConcatInLoop) (.head _)).begins⟩ }
  cases hfix : joinFix? t t.names g.loop g.accumulation with
  | none =>
    exact .of_range (Growth.range_of_no_join hfix) (Node.line_pos _) (h.line_le hmem hsolid)
      (h.endLine_le hmem hsolid) rfl
  | some fixed =>
    obtain ⟨range, fix⟩ := fixed
    obtain ⟨hj, rfl⟩ := joinFix?_eq_some hfix
    have hbelow := hj.below
    have hend := hj.line_le_endLine h (g.loop_mem hplace hholds) hsolid
    have hlast := h.endLine_le (g.loop_mem hplace hholds) (Node.isSolid_of_has hj.isFor rfl)
    have hrange := (Growth.issue_of_join hfix).1
    have hline : (g.issue t).line = g.accumulation.statement.line := rfl
    refine ⟨?_, ?_, ?_, ?_, rfl⟩
    · simp [hrange, LineRange.of, Node.line]
    · simp only [hrange, hline, LineRange.of]
      omega
    · simp only [hrange, hline, LineRange.of]
      omega
    · simp only [hrange, LineRange.of]
      omega

end StringConcat

end Detect

namespace Rule

variable {t : Tree}

theorem issues_keep (h : t.Ranged) (r : Rule) : ∀ i ∈ r.issues t, i.KeepsContract t r := by
  cases r with
  | stringConcatInLoop => exact Detect.StringConcat.issues_keep h
  | nestedLoop => exact Detect.NestedLoop.issues_keep h
  | missingDocstring => exact Detect.Docstring.issues_keep h
  | missingTypeHint => exact Detect.TypeCoverage.issues_keep h
  | bareExcept => exact Detect.BareExcept.issues_keep h
  | dynamicCodeExecution => exact Detect.DynamicCode.issues_keep h

/-- The detector of a rule is never skipped. -/
theorem detector_run (h : t.Ranged) (r : Rule) : r.detector.run t = .ok (r.issues t) :=
  (Detector.run_eq_ok_iff _ _ _).mpr ⟨rfl, fun i hi => (issues_keep h r i hi).honours⟩

theorem detector_fault? (h : t.Ranged) (r : Rule) : r.detector.fault? t = none := by
  have hrun := detector_run h r
  rw [Detector.run_eq] at hrun
  cases hfault : r.detector.fault? t with
  | none => rfl
  | some e => simp [hfault] at hrun

theorem detector_succeeds (h : t.Ranged) (r : Rule) : r.detector.succeeds t = true := by
  rw [← Bool.not_eq_false, ← Detector.fault?_isSome_iff, detector_fault? h r]
  simp

end Rule

theorem Execution.dry_success_iff {source : String} {plan : Plan} {allowReview : Bool} :
    (run ⟨true, allowReview⟩ source plan).success = true ↔ plan.Admitted source := by
  constructor
  · intro h
    have hexit := outcome_exit ⟨true, allowReview⟩ source plan
    rw [run] at h
    generalize outcome ⟨true, allowReview⟩ source plan = o at h hexit
    cases hexit with
    | planned ha hl => exact ha
    | applied text tree ha hl hc hedit hparse => cases hl
    | refused | foreign | unreadable | incomplete | unreviewed | rejected | invalidated =>
      simp [ofOutcome] at h
  · intro ha
    rw [run, (Exit.planned ha rfl).outcome_eq]
    rfl

/-- The edit that an issue asks for, unless it is refused. -/
def Issue.edit? (i : Issue) : Option Edit :=
  if i.confidence = .refuse then none else i.fix.map fun f => ⟨i.range, f⟩

theorem Plan.fixes_eq (p : Plan) : p.fixes = p.issues.filterMap Issue.edit? := rfl

/-- The issues of the selected rules, rule by rule. -/
def Selection.issues (s : Selection) (t : Tree) : List Issue :=
  s.rules.flatMap fun r => sortBy Issue.anchorLe (r.issues t)

namespace Engine

variable {e : Engine} {unit : SourceUnit} {tree : Tree}

theorem analyze_of_parse (hp : Tree.parse unit.source = .ok tree) :
    e.analyze unit = (Plan.build unit (.ok tree) e.selection.detectors).1 := by
  rw [analyze, analyzeLogged, hp]

theorem analyze_failures (hp : Tree.parse unit.source = .ok tree) (h : tree.Ranged) :
    (e.analyze unit).failures = [] := by
  have hnone : e.selection.detectors.filterMap (·.fault? tree) = [] := by
    rw [List.filterMap_eq_nil_iff]
    intro d hd
    obtain ⟨r, -, rfl⟩ := List.mem_map.mp hd
    exact r.detector_fault? h
  rw [analyze_of_parse hp, Plan.build_failures, Plan.allFailures, hnone, List.map_nil]

/-- The issues of an analysed plan are those of the selected rules, rule by rule. -/
theorem analyze_issues (hp : Tree.parse unit.source = .ok tree) (h : tree.Ranged) :
    (e.analyze unit).issues =
      e.selection.rules.flatMap fun r => sortBy Issue.anchorLe (r.issues tree) := by
  have hall : e.selection.detectors.filter (·.succeeds tree) = e.selection.detectors := by
    rw [List.filter_eq_self]
    intro d hd
    obtain ⟨r, -, rfl⟩ := List.mem_map.mp hd
    exact r.detector_succeeds h
  rw [analyze_of_parse hp, Plan.build_issues, Plan.sortedReports, hall, Selection.detectors,
    List.flatMap_map]
  rfl

/-- What a live run of an analysed plan makes of the text, from the issues of the selected rules. -/
theorem live_after_of_issues (e : Engine) (unit : SourceUnit)
    (hp : Tree.parse unit.source = .ok tree) (h : tree.Ranged)
    (hsafe : isSafe (complexityOf (e.selection.issues tree)) (e.selection.issues tree) = true)
    {text : String}
    (hedit : Edit.applyAll unit.source ((e.selection.issues tree).filterMap Issue.edit?) = .ok text)
    (hvalid : Tree.validates text = true) :
    (e.execute unit.source (e.analyze unit) false).after = some text := by
  have hissues : (e.analyze unit).issues = e.selection.issues tree := analyze_issues hp h
  have hrefusal : (e.analyze unit).refusal = none := by rw [analyze_of_parse hp]; rfl
  have hdecided : (e.analyze unit).safeToApply =
      isSafe (complexityOf (e.analyze unit).issues) (e.analyze unit).issues := by
    rw [analyze_of_parse hp]; rfl
  rw [hissues, hsafe] at hdecided
  refine Execution.live_after_iff.mpr
    ⟨(e.analyze_admitted_iff unit).mpr ⟨hrefusal, analyze_failures hp h⟩,
    .inl hdecided, ?_, (Tree.validates_iff text).mp hvalid⟩
  rw [Plan.fixes_eq, hissues, hedit]

theorem analyze_keeps (hp : Tree.parse unit.source = .ok tree) (h : tree.Ranged) :
    ∀ i ∈ (e.analyze unit).issues, i.KeepsContract tree i.rule := by
  intro i hi
  rw [analyze_issues hp h, List.mem_flatMap] at hi
  obtain ⟨r, -, hi⟩ := hi
  rw [mem_sortBy] at hi
  have hkeep := r.issues_keep h i hi
  rwa [hkeep.rule_eq]

/-- Whatever rules are selected, all detectors keep the contract of their issues on every text that
parses, so that none is skipped; and the dry run of an analysed plan succeeds for those texts and no
others. -/
theorem analyze_contract (e : Engine) (unit : SourceUnit)
    (hparser : ∀ tree, Tree.parse unit.source = .ok tree → tree.Ranged) :
    (∀ tree, Tree.parse unit.source = .ok tree →
      (∀ r : Rule, r.detector.run tree = .ok (r.issues tree)) ∧
      (e.analyze unit).failures = [] ∧
      ∀ i ∈ (e.analyze unit).issues, i.KeepsContract tree i.rule) ∧
    ((e.execute unit.source (e.analyze unit) true).success = true ↔
      ∃ tree, Tree.parse unit.source = .ok tree) := by
  refine ⟨?_, ?_⟩
  · intro tree hp
    have h := hparser tree hp
    exact ⟨Rule.detector_run h, analyze_failures hp h, analyze_keeps hp h⟩
  · rw [execute, Execution.dry_success_iff]
    constructor
    · intro ha
      exact ha.readable
    · rintro ⟨tree, hp⟩
      have hrefusal : (e.analyze unit).refusal = none := by rw [analyze_of_parse hp]; rfl
      exact (e.analyze_admitted_iff unit).mpr ⟨hrefusal, analyze_failures hp (hparser tree hp)⟩

/-- The issue about the loop is anchored in its body and is about the lines of the whole loop. -/
theorem analyze_contract_loop :
    let unit : SourceUnit := ⟨"s = ''\nfor x in xs:\n s += x\n", none⟩
    let plan := ({} : Engine).analyze unit
    (∀ tree, Tree.parse unit.source = .ok tree → tree.Ranged) ∧
      plan.issues.map (fun i => (i.line, i.range)) = [(3, ⟨2, 3⟩)] ∧
      plan.failures = [] ∧ (({} : Engine).execute unit.source plan true).success = true := by
  intro unit plan
  let root := Tree.rootOf unit.source.toList
  have hfacts : Tree.validates unit.source = true ∧ (⟨unit.source, root⟩ : Tree).Ranged ∧
      (Rule.all.flatMap fun r => sortBy Issue.anchorLe (r.issues ⟨unit.source, root⟩)).map
        (fun i => (i.line, i.range)) = [(3, ⟨2, 3⟩)] := by
    decide +kernel
  obtain ⟨hvalid, hranged, hlines⟩ := hfacts
  have hparser : ∀ tree, Tree.parse unit.source = .ok tree → tree.Ranged := by
    intro tree hp
    rw [Tree.eq_of_parse hp]
    exact hranged
  obtain ⟨tree, hp⟩ := (Tree.validates_iff unit.source).mp hvalid
  obtain ⟨hkept, hdry⟩ := analyze_contract {} unit hparser
  refine ⟨hparser, ?_, (hkept tree hp).2.1, hdry.mpr ⟨tree, hp⟩⟩
  have hissues := analyze_issues (e := {}) hp (hparser tree hp)
  rw [Tree.eq_of_parse hp] at hissues
  rw [← hlines]
  exact congrArg _ hissues

end Engine

end SafeRefactor
