import SafeRefactor.Proofs.Arrangement
import SafeRefactor.Proofs.IssueContract

/-!
# Fixes that share no line

Three detectors offer fixes, for the header of a function, the line of a handler and the whole of a
loop. Each of these takes up lines from the first one of its construct on, and ends above every
construct that comes later in the text and is first on its line. Constructs that have a fix are
first on their lines, so the fixes of a tree never share one.
-/

set_option autoImplicit false

namespace SafeRefactor

open Syntax

namespace Issue

variable {t : Tree} {i j : Issue} {n m : Node}

/-- The two issues are about different lines. -/
def Apart (i j : Issue) : Prop := i.range.last < j.range.first ∨ j.range.last < i.range.first

/-- If both issues have fixes to act on, they are about different lines. -/
def Compatible (i j : Issue) : Prop := i.actionable = true → j.actionable = true → i.Apart j

theorem Compatible.symm (h : i.Compatible j) : j.Compatible i := fun hj hi => (h hi hj).symm

theorem exists_fix_of_actionable (h : i.actionable = true) : ∃ fix, i.fix = some fix := by
  rw [actionable, Bool.and_eq_true] at h
  exact Option.isSome_iff_exists.mp h.1

/-- The issue takes up lines from the first one of a construct on, but none on which a later
construct is the first text. -/
structure Occupies (t : Tree) (n : Node) (i : Issue) : Prop where
  mem : n ∈ t.root.preorder
  construct : n.isConstruct = true
  leads : n.start.Leads t.source.toList
  first_eq : i.range.first = n.line
  last_lt : ∀ b ∈ t.root.preorder, b.isConstruct = true → b.start.Leads t.source.toList →
    n.Precedes b → i.range.last < b.line

theorem Occupies.apart (h : t.Arranged) (hi : i.Occupies t n) (hj : j.Occupies t m) (hne : n ≠ m) :
    i.Apart j := by
  rcases h.precedes_or hi.mem hj.mem hne with hp | hp
  · left
    rw [hj.first_eq]
    exact hi.last_lt m hj.mem hj.construct hj.leads hp
  · right
    rw [hi.first_eq]
    exact hj.last_lt n hi.mem hi.construct hi.leads hp

/-- One issue for each of some nodes: no two of them share a line. -/
theorem map_compatible {ns : List Node} {f : Node → Issue} (h : t.Arranged)
    (hns : ns.Sublist t.root.preorder)
    (hf : ∀ n ∈ ns, (f n).actionable = true → (f n).Occupies t n) :
    (ns.map f).Pairwise Compatible := by
  rw [List.pairwise_map]
  refine ((h.preorder_precedes t.root.self_mem_preorder).sublist hns).imp_of_mem ?_
  intro n m hn hm hp hin hjm
  have hi := hf n hn hin
  have hj := hf m hm hjm
  left
  rw [hj.first_eq]
  exact hi.last_lt m hj.mem hj.construct hj.leads hp

end Issue

namespace Detect

variable {t : Tree} {n : Node}

namespace Docstring

theorem fix?_eq_some {header : LineRange} {fix : String} (h : fix? t n header = some fix) :
    ∃ first rest, bodyStatements n = first :: rest ∧ header.last < first.line ∧
      (t.indentation header.first).utf8ByteSize = n.start.column := by
  unfold fix? at h
  split at h
  · cases h
  · next first rest hbody =>
    simp only at h
    split at h
    · next happlies => exact ⟨first, rest, hbody, happlies.1, happlies.2.2⟩
    · cases h

theorem issue_occupies (h : t.Arranged) (hn : n ∈ t.root.preorder)
    (hfun : n.has .functionDefinition = true) (hfix : (issue t n).actionable = true) :
    (issue t n).Occupies t n := by
  obtain ⟨fix, hfix⟩ := Issue.exists_fix_of_actionable hfix
  obtain ⟨first, rest, hbody, hbelow, hleads⟩ := fix?_eq_some hfix
  have hfirst : first ∈ n.preorder := bodyStatements_subset (by simp [hbody])
  have hfirstMem := Node.mem_preorder_trans hn hfirst
  refine ⟨hn, by simp [Node.isConstruct, hfun], t.leads_of_indentation (h.start_liesIn n hn) hleads,
    rfl, ?_⟩
  intro b hb hconstruct _ hprecedes
  -- every later construct comes after the first statement of the body
  have hle : first.start.offset ≤ b.start.offset := by
    rcases hprecedes with hin | hafter
    · obtain ⟨s, hs, hbs, -⟩ := h.mem_bodyStatements hn (.inl hfun) hin hconstruct
      have hsMem := Node.mem_preorder_trans hn (bodyStatements_subset hs)
      exact (h.head_bodyStatements_le hn hbody hs).trans (h.encloses hsMem hbs).1
    · have hstop := (h.encloses hn hfirst).2
      have hstart := h.start_le_stop first hfirstMem
      omega
  have hrow := (h.start_liesIn first hfirstMem).row_le (h.start_liesIn b hb) hle
  have hline : first.line ≤ b.line := Nat.add_le_add_right hrow 1
  exact Nat.lt_of_lt_of_le hbelow hline

theorem issues_compatible (h : t.Arranged) : (issues t).Pairwise Issue.Compatible := by
  have hissues : issues t =
      ((t.root.preorder.filter (·.has .functionDefinition)).filter (!hasDocstring ·)).map
        (issue t) := by
    rw [← t.functions_nodes, List.filter_map, List.map_map]
    rfl
  rw [hissues]
  refine Issue.map_compatible h (List.filter_sublist.trans List.filter_sublist) ?_
  intro n hn hfix
  obtain ⟨hn, hfun⟩ := List.mem_filter.mp (List.mem_of_mem_filter hn)
  exact issue_occupies h hn hfun hfix

end Docstring

namespace BareExcept

theorem issue_occupies (h : t.Arranged) (hn : n ∈ t.root.preorder)
    (hclause : n.has .exceptClause = true) :
    (issue t n).Occupies t n := by
  obtain ⟨hleads, htext, keyword, hkeyword, htoken, hstart, hsolid⟩ := h.keyword n hn hclause
  obtain ⟨c, hc, hspace⟩ := (Option.any_eq_true _ _).mp htext
  rw [Bool.not_eq_true'] at hspace
  refine ⟨hn, by simp [Node.isConstruct, hclause], hleads, rfl, ?_⟩
  intro b hb hconstruct hbleads hprecedes
  -- a construct in the clause comes after the keyword
  have hlt : n.start.offset < b.start.offset := by
    rcases hprecedes with hin | hafter
    · obtain ⟨d, hd, hbd⟩ := Node.mem_preorderAll.mp hin
      have hdMem := Node.child_mem_preorder hn hd
      have hholds := h.placed d hdMem ⟨b, hbd, hconstruct⟩
      obtain ⟨rest, hchildren⟩ := List.head?_eq_some_iff.mp hkeyword
      have hordered := h.ordered n hn
      rw [hchildren] at hd hordered
      rcases List.mem_cons.mp hd with rfl | hd
      · have hkind : d.kind = .token "except" := by simpa [Node.isToken] using htoken
        simp [Node.holdsStatements, hkind] at hholds
      · have hgap := (List.pairwise_cons.mp hordered).1 d hd
        have hbelow := (h.encloses hdMem hbd).1
        rw [← hstart]
        omega
    · exact Nat.lt_of_lt_of_le (h.solid n hn (Node.isSolid_of_has hclause rfl)) hafter
  have hrow := (h.start_liesIn n hn).row_lt_of_leads (h.start_liesIn b hb) hbleads hlt hc hspace
  simpa [issue, LineRange.single, LineRange.of, Node.line] using hrow

theorem issues_compatible (h : t.Arranged) : (issues t).Pairwise Issue.Compatible := by
  rw [issues, t.nodes_eq_preorder]
  refine Issue.map_compatible h List.filter_sublist ?_
  intro n hn _
  rw [List.mem_filter, Bool.and_eq_true] at hn
  exact issue_occupies h hn.1 hn.2.1

end BareExcept

namespace StringConcat

variable {loop : Node} {a : Accumulation} {g g' : Growth}

theorem Growth.joinable_of_actionable (h : (g.issue t).actionable = true) :
    Joinable t g.loop g.accumulation ∧ (g.issue t).range = .of g.loop.line g.loop.endLine := by
  obtain ⟨fix, hfix⟩ := Issue.exists_fix_of_actionable h
  exact joinable (by rw [hfix]; rfl)

/-- No construct lies in a loop that does nothing but extend a string. -/
theorem Joinable.not_below (h : t.Arranged) (hj : Joinable t loop a)
    (hloop : loop ∈ t.root.preorder)
    (hassigns : a.statement.isAssigning = true) {b : Node} (hconstruct : b.isConstruct = true) :
    b ∉ Node.preorderAll loop.children := by
  intro hb
  obtain ⟨d, hd, -, hholds⟩ := h.mem_bodyStatements hloop (.inr ⟨hj.isFor, hj.noElse⟩) hb hconstruct
  rw [hj.sole, List.mem_singleton] at hd
  subst hd
  simp only [Node.isAssigning, Bool.or_eq_true] at hassigns
  rcases hassigns with (hd | hd) | hd <;>
  · rw [Node.holdsStatements_of_has hd] at hholds
    cases hholds

theorem Joinable.endLine_lt (h : t.Arranged) (hj : Joinable t loop a)
    (hloop : loop ∈ t.root.preorder)
    {b : Node} (hb : b ∈ t.root.preorder) (hleads : b.start.Leads t.source.toList)
    (hafter : loop.stop.offset ≤ b.start.offset) : loop.endLine < b.line := by
  have hstart := h.start_liesIn loop hloop
  have hstop := h.stop_liesIn loop hloop
  have hbstart := h.start_liesIn b hb
  have hlt := h.solid loop hloop (Node.isSolid_of_has hj.isFor rfl)
  have hrow := hstart.row_le hstop (Nat.le_of_lt hlt)
  rw [Node.endLine, Node.line]
  rcases h.ends loop hloop hj.isFor with hcolumn | hnot
  · have hne : loop.start.row ≠ loop.stop.row := by
      intro heq
      have := hstart.column_lt hstop hlt heq
      omega
    have hle := hstop.row_le hbstart hafter
    rw [if_pos ⟨hcolumn, by omega⟩]
    omega
  · have := hstop.row_lt_of_not_leads hbstart hleads hafter hnot
    split <;> omega

namespace Growth

theorem issue_occupies (h : t.Arranged) (hplace : g.place ∈ t.places) (hg : g.Holds t)
    (hfix : (g.issue t).actionable = true) : (g.issue t).Occupies t g.loop := by
  have hloop := g.loop_mem hplace hg
  obtain ⟨hj, hrange⟩ := joinable_of_actionable hfix
  refine ⟨hloop, by simp [Node.isConstruct, hj.isFor],
    t.leads_of_indentation (h.start_liesIn _ hloop) hj.leads, by rw [hrange]; rfl, ?_⟩
  intro b hb hconstruct hleads hprecedes
  rcases hprecedes with hin | hafter
  · exact absurd hin (hj.not_below h hloop (g.isAssigning hplace hg) hconstruct)
  · have hend := hj.endLine_lt h hloop hb hleads hafter
    have hself := h.line_le_endLine hloop g.loop.self_mem_preorder
      (Node.isSolid_of_has hj.isFor rfl)
    simp only [hrange, LineRange.of]
    omega

/-- A loop that does nothing else extends a string in one place only. -/
theorem node_eq_of_loop (hplace : g.place ∈ t.places) (hplace' : g'.place ∈ t.places)
    (hg : g.Holds t) (hg' : g'.Holds t) (hj : Joinable t g.loop g.accumulation)
    (hj' : Joinable t g'.loop g'.accumulation) (hloop : g.loop = g'.loop) : g.node = g'.node := by
  have heq : g.statement = g'.statement := by
    have hsole : [g.statement] = [g'.statement] := by
      rw [← show bodyStatements g.loop = [g.statement] from hj.sole, hloop]
      exact hj'.sole
    simpa using hsole
  rcases g.statement_cases hplace hg with ⟨hform, hnode⟩ | ⟨hform, hnode⟩
  · rcases g'.statement_cases hplace' hg' with ⟨-, hnode'⟩ | ⟨hform', -⟩
    · obtain ⟨only, honly⟩ := List.length_eq_one_iff.mp (hj.single hform)
      change g.statement.namedChildren = [only] at honly
      rw [← heq, honly, List.mem_singleton] at hnode'
      rw [honly, List.mem_singleton] at hnode
      rw [hnode, hnode']
    · simp [← heq, hform] at hform'
  · rcases g'.statement_cases hplace' hg' with ⟨hform', -⟩ | ⟨-, hnode'⟩
    · simp [← heq, hform] at hform'
    · rw [← hnode, ← hnode', heq]

end Growth

theorem issues_compatible (h : t.Arranged) : (issues t).Pairwise Issue.Compatible := by
  obtain ⟨gs, hissues, hplaces, hmem⟩ := exists_growths t
  have hnodes : (gs.map Growth.node).Sublist t.root.preorder := by
    have hmap := hplaces.map (·.here.node)
    rwa [List.map_map, t.places_nodes] at hmap
  have hprecedes := (h.preorder_precedes t.root.self_mem_preorder).sublist hnodes
  rw [List.pairwise_map] at hprecedes
  rw [hissues, List.pairwise_map]
  refine hprecedes.imp_of_mem ?_
  intro g g' hg hg' hp hfix hfix'
  obtain ⟨hplace, hholds⟩ := (hmem g).mp hg
  obtain ⟨hplace', hholds'⟩ := (hmem g').mp hg'
  refine Issue.Occupies.apart h (g.issue_occupies h hplace hholds hfix)
    (g'.issue_occupies h hplace' hholds' hfix') ?_
  intro heq
  have hnode := Growth.node_eq_of_loop hplace hplace' hholds hholds'
    (Growth.joinable_of_actionable hfix).1
    (Growth.joinable_of_actionable hfix').1 heq
  rw [← hnode] at hp
  exact h.not_precedes_self (hnodes.subset (List.mem_map_of_mem hg))
    (Node.isSolid_of_isAssigning (g.node_isAssigning hholds)) hp

end StringConcat

end Detect

namespace Rule

variable {t : Tree}

/-- The form of the constructs that fixes of a rule are about. -/
def construct? : Rule → Option Form
  | .stringConcatInLoop => some .forStatement
  | .missingDocstring => some .functionDefinition
  | .bareExcept => some .exceptClause
  | .nestedLoop | .missingTypeHint | .dynamicCodeExecution => none

theorem construct?_injective {r r' : Rule} {f : Form} (h : r.construct? = some f)
    (h' : r'.construct? = some f) : r = r' := by
  cases r <;> cases h <;> cases r' <;> cases h' <;> rfl

theorem not_actionable (h : t.Ranged) {r : Rule} (hr : r.isAdvisory = true) :
    ∀ i ∈ r.issues t, i.actionable = false := by
  intro i hi
  simp [Issue.actionable, (issues_keep h r i hi).fix_none hr]

theorem issues_occupy (h : t.Arranged) (r : Rule) : ∀ i ∈ r.issues t, i.actionable = true →
    ∃ f n, r.construct? = some f ∧ n.has f = true ∧ i.Occupies t n := by
  intro i hi hfix
  have hadvisory : r.isAdvisory = false := by
    by_contra hr
    simp [not_actionable h.toRanged (by simpa using hr) i hi] at hfix
  cases r with
  | stringConcatInLoop =>
    obtain ⟨g, hplace, hholds, rfl⟩ := Detect.StringConcat.exists_growth hi
    exact ⟨_, _, rfl, (Detect.StringConcat.Growth.joinable_of_actionable hfix).1.isFor,
      g.issue_occupies h hplace hholds hfix⟩
  | missingDocstring =>
    obtain ⟨c, hc, rfl⟩ := List.mem_map.mp hi
    obtain ⟨hn, hfun⟩ := Detect.mem_functions (List.mem_of_mem_filter hc)
    exact ⟨_, _, rfl, hfun, Detect.Docstring.issue_occupies h hn hfun hfix⟩
  | bareExcept =>
    obtain ⟨n, hn, rfl⟩ := List.mem_map.mp hi
    rw [t.nodes_eq_preorder, List.mem_filter, Bool.and_eq_true] at hn
    exact ⟨_, _, rfl, hn.2.1, Detect.BareExcept.issue_occupies h hn.1 hn.2.1⟩
  | nestedLoop | missingTypeHint | dynamicCodeExecution => cases hadvisory

theorem issues_compatible (h : t.Arranged) (r : Rule) : (r.issues t).Pairwise Issue.Compatible := by
  cases r with
  | stringConcatInLoop => exact Detect.StringConcat.issues_compatible h
  | missingDocstring => exact Detect.Docstring.issues_compatible h
  | bareExcept => exact Detect.BareExcept.issues_compatible h
  | nestedLoop | missingTypeHint | dynamicCodeExecution =>
    refine List.pairwise_of_forall_mem_list ?_
    intro i hi j _ hfix
    simp [not_actionable h.toRanged rfl i hi] at hfix

theorem issues_compatible_of_ne (h : t.Arranged) {r r' : Rule} (hne : r ≠ r') :
    ∀ i ∈ r.issues t, ∀ j ∈ r'.issues t, i.Compatible j := by
  intro i hi j hj hfix hfix'
  obtain ⟨f, n, hf, hn, hocc⟩ := r.issues_occupy h i hi hfix
  obtain ⟨f', n', hf', hn', hocc'⟩ := r'.issues_occupy h j hj hfix'
  refine hocc.apart h hocc' ?_
  rintro rfl
  have hkind : Kind.named f = .named f' := (Node.kind_of_has hn).symm.trans (Node.kind_of_has hn')
  cases hkind
  exact hne (construct?_injective hf hf')

end Rule

theorem Plan.fixes_apart {p : Plan} (h : p.issues.Pairwise Issue.Compatible) :
    p.fixes.Pairwise Edit.Apart := by
  have hfix {i : Issue} {d : Edit}
      (h : (if i.confidence = .refuse then none else i.fix.map fun f => (⟨i.range, f⟩ : Edit)) =
        some d) :
      i.actionable = true ∧ d.range = i.range := by
    split at h
    · cases h
    · next hc =>
      obtain ⟨fix, hfix, rfl⟩ := Option.map_eq_some_iff.mp h
      exact ⟨by simp [Issue.actionable, hfix, hc], rfl⟩
  rw [fixes, List.pairwise_filterMap]
  refine h.imp ?_
  intro i j hij d hd d' hd'
  obtain ⟨hi, hrange⟩ := hfix hd
  obtain ⟨hj, hrange'⟩ := hfix hd'
  rw [Edit.apart_iff, Edit.Above, Edit.Above, hrange, hrange']
  exact hij hi hj

namespace Engine

variable {e : Engine} {unit : SourceUnit} {tree : Tree}

theorem analyze_issues_compatible (hp : Tree.parse unit.source = .ok tree) (h : tree.Arranged) :
    (e.analyze unit).issues.Pairwise Issue.Compatible := by
  rw [analyze_issues hp h.toRanged, List.pairwise_flatMap]
  constructor
  · intro r _
    exact ((sortBy_perm _ _).pairwise_iff fun h => h.symm).mpr (r.issues_compatible h)
  · have hrules : e.selection.rules.Nodup := List.Nodup.filter _ (by decide)
    refine hrules.imp ?_
    intro r r' hne i hi j hj
    rw [mem_sortBy] at hi hj
    exact Rule.issues_compatible_of_ne h hne i hi j hj

theorem analyze_fits (hp : Tree.parse unit.source = .ok tree) (h : tree.Arranged) :
    (e.analyze unit).Fits unit.source := by
  constructor
  · intro d hd
    obtain ⟨i, hi, -, hrange, -⟩ := (Plan.mem_fixes_iff _ d).mp hd
    have hkeep := analyze_keeps hp h.toRanged i hi
    have hlast := hkeep.last_le
    rw [Tree.length_lines, Tree.eq_of_parse hp] at hlast
    rw [Edit.Inside, ← hrange]
    exact ⟨hkeep.first_pos, hlast⟩
  · exact Plan.fixes_apart (analyze_issues_compatible hp h)

theorem analyze_applies (hp : Tree.parse unit.source = .ok tree) (h : tree.Arranged) :
    Edit.applyAll unit.source (e.analyze unit).fixes =
      .ok (Edit.merged unit.source (e.analyze unit).fixes) :=
  (Plan.applyAll_fixes_iff (e.analyze_first_le_last unit) _ _).mpr ⟨analyze_fits hp h, rfl⟩

/-- A live run of an analysed plan fails, if it does, for want of a review or for what the new text
looks like, never because of its edits. -/
theorem analyze_errors (hp : Tree.parse unit.source = .ok tree) (h : tree.Arranged)
    (err : EditError) :
    err.message ∉ (e.execute unit.source (e.analyze unit) false).errors := by
  have hother {c : Char} {text : String} (hc : Text.Begins c text) (hne : c ≠ err.initial) :
      err.message ≠ text := by
    rintro rfl
    exact hne (hc.unique err.message_begins)
  have hexit := Execution.outcome_exit ⟨false, e.allowReview⟩ unit.source (e.analyze unit)
  rw [execute, Execution.run]
  generalize Execution.outcome ⟨false, e.allowReview⟩ unit.source (e.analyze unit) = o at hexit ⊢
  cases hexit with
  | planned ha hl => cases hl
  | applied text new ha hl hc hedit hparse => simp [Execution.ofOutcome]
  | rejected err' ha hl hc hedit => simp [analyze_applies hp h] at hedit
  | unreviewed ha hl hc =>
    have hfirst : Text.Begins 'p' ExecutionError.reviewRequired.message := Text.begins_ofList _ _
    simpa [Execution.ofOutcome] using hother hfirst (by cases err <;> simp [EditError.initial])
  | invalidated text fault ha hl hc hedit hparse =>
    have hfirst : Text.Begins 'r' (ExecutionError.invalidResult fault).message :=
      (Text.begins_ofList _ _).append _
    simpa [Execution.ofOutcome] using hother hfirst (by cases err <;> simp [EditError.initial])
  | refused reason hr => simp [analyze_of_parse hp, Plan.build] at hr
  | foreign hr hd => exact absurd (e.analyze_digest unit).symm hd
  | unreadable fault hr hd hbad => simp [hp] at hbad
  | incomplete new hr hd hok hf => exact absurd (analyze_failures hp h.toRanged) hf

/-- The fixes of an analysed plan lie inside the text, and no two of them share a line. So they can
all be applied, and no live run of the plan fails because of its edits. -/
theorem analyze_never_conflicts (e : Engine) (unit : SourceUnit) {tree : Tree}
    (hp : Tree.parse unit.source = .ok tree) (h : tree.Arranged) :
    let plan := e.analyze unit
    (∀ i ∈ plan.issues, i.actionable = true →
      1 ≤ i.range.first ∧ i.range.first ≤ i.range.last ∧ i.range.last ≤ tree.lines.length) ∧
    ((plan.issues.filter Issue.actionable).Pairwise fun i j =>
      i.range.last < j.range.first ∨ j.range.last < i.range.first) ∧
    (∃ text, Edit.applyAll unit.source plan.fixes = .ok text) ∧
    ∀ err : EditError, err.message ∉ (e.execute unit.source plan false).errors := by
  intro plan
  refine ⟨?_, ?_, ⟨_, analyze_applies hp h⟩, analyze_errors hp h⟩
  · intro i hi _
    have hkeep := analyze_keeps hp h.toRanged i hi
    exact ⟨hkeep.first_pos, hkeep.first_le.trans hkeep.le_last, hkeep.last_le⟩
  · refine ((analyze_issues_compatible hp h).filter _).imp_of_mem ?_
    intro i j hi hj hij
    exact hij (List.mem_filter.mp hi).2 (List.mem_filter.mp hj).2

/-- A loop in a `try` statement in a function, all of them with fixes. -/
theorem analyze_never_conflicts_nested :
    let unit : SourceUnit := ⟨"def f():\n try:\n  for x in y:\n   s += ''\n except:\n  0\n", none⟩
    let plan := ({} : Engine).analyze unit
    (∃ tree, Tree.parse unit.source = .ok tree ∧ tree.Arranged) ∧
      (plan.issues.filter Issue.actionable).map (·.range) = [⟨3, 4⟩, ⟨1, 1⟩, ⟨5, 5⟩] ∧
      ∃ text, Edit.applyAll unit.source plan.fixes = .ok text := by
  intro unit plan
  let root := Tree.rootOf unit.source.toList
  have hfacts : Tree.validates unit.source = true ∧ (⟨unit.source, root⟩ : Tree).Arranged ∧
      ((Rule.all.flatMap fun r => sortBy Issue.anchorLe (r.issues ⟨unit.source, root⟩)).filter
        Issue.actionable).map (·.range) = [⟨3, 4⟩, ⟨1, 1⟩, ⟨5, 5⟩] := by
    decide +kernel
  obtain ⟨hvalid, harranged, hranges⟩ := hfacts
  obtain ⟨tree, hp⟩ := (Tree.validates_iff unit.source).mp hvalid
  have htree := Tree.eq_of_parse hp
  subst htree
  refine ⟨⟨_, hp, harranged⟩, ?_, (analyze_never_conflicts {} unit hp harranged).2.2.1⟩
  rw [← hranges]
  exact congrArg _ (congrArg _ (analyze_issues hp harranged.toRanged))

end Engine

end SafeRefactor
