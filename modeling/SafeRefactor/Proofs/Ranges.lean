import SafeRefactor.Proofs.Places
import SafeRefactor.Proofs.Traversal

/-!
# Ranges of nodes

What analysis relies on about the ranges of a parse tree: they lie in the text, a node's range holds
those of its children, and the constructs that issues are anchored at are not empty. The lines of
such constructs are then lines of the text, and a construct ends no earlier than what lies in it
begins.
-/

set_option autoImplicit false

namespace SafeRefactor.Syntax

/-- The forms at which issues are anchored: statements, loops, clauses, functions and calls. -/
def Form.isAnchor : Form → Bool
  | .expressionStatement | .assignment | .augmentedAssignment | .forStatement | .whileStatement
  | .exceptClause | .forInClause | .functionDefinition | .call => true
  | _ => false

/-- Whether a node always takes up some text: an issue is anchored at it, or it is a colon. -/
def Node.isSolid (n : Node) : Bool :=
  match n.kind with
  | .named f => f.isAnchor
  | .token spelling => spelling = ":"
  | .error => false

theorem Node.isSolid_of_has {n : Node} {f : Form} (h : n.has f = true) (hf : f.isAnchor = true) :
    n.isSolid = true := by
  simp [isSolid, kind_of_has h, hf]

theorem Node.isSolid_of_isToken {n : Node} (h : n.isToken ":" = true) : n.isSolid = true := by
  have hkind : n.kind = .token ":" := by simpa [isToken] using h
  simp [isSolid, hkind]

theorem Node.line_pos (n : Node) : 1 ≤ n.line := Nat.le_add_left 1 _

namespace Tree

/-- The ranges of a tree are as a parser leaves them. -/
structure Ranged (t : Tree) : Prop where
  start_liesIn : ∀ n ∈ t.root.preorder, n.start.LiesIn t.source.toList
  stop_liesIn : ∀ n ∈ t.root.preorder, n.stop.LiesIn t.source.toList
  start_le_stop : ∀ n ∈ t.root.preorder, n.start.offset ≤ n.stop.offset
  nested : ∀ n ∈ t.root.preorder, ∀ c ∈ n.children,
    n.start.offset ≤ c.start.offset ∧ c.stop.offset ≤ n.stop.offset
  solid : ∀ n ∈ t.root.preorder, n.isSolid = true → n.start.offset < n.stop.offset

theorem ranged_iff (t : Tree) : t.Ranged ↔ ∀ n ∈ t.root.preorder,
    n.start.LiesIn t.source.toList ∧ n.stop.LiesIn t.source.toList ∧
      n.start.offset ≤ n.stop.offset ∧
      (∀ c ∈ n.children, n.start.offset ≤ c.start.offset ∧ c.stop.offset ≤ n.stop.offset) ∧
      (n.isSolid = true → n.start.offset < n.stop.offset) :=
  ⟨fun h n hn => ⟨h.start_liesIn n hn, h.stop_liesIn n hn, h.start_le_stop n hn, h.nested n hn,
    h.solid n hn⟩,
    fun h => ⟨fun n hn => (h n hn).1, fun n hn => (h n hn).2.1, fun n hn => (h n hn).2.2.1,
      fun n hn => (h n hn).2.2.2.1, fun n hn => (h n hn).2.2.2.2⟩⟩

instance (t : Tree) : Decidable t.Ranged := decidable_of_iff _ t.ranged_iff.symm

namespace Ranged

variable {t : Tree} {n m : Node}

/-- The range of a node holds those of all nodes below it. -/
theorem encloses (h : t.Ranged) (hn : n ∈ t.root.preorder) (hm : m ∈ n.preorder) :
    n.start.offset ≤ m.start.offset ∧ m.stop.offset ≤ n.stop.offset := by
  induction n using Node.induction with
  | node l cs ih =>
    rcases Node.mem_preorder_iff.mp hm with rfl | ⟨c, hc, hmc⟩
    · exact ⟨Nat.le_refl _, Nat.le_refl _⟩
    · have hchild := h.nested _ hn c hc
      have hbelow := ih c hc (Node.child_mem_preorder hn hc) hmc
      omega

theorem line_le (h : t.Ranged) (hn : n ∈ t.root.preorder) (hs : n.isSolid = true) :
    n.line ≤ t.lines.length := by
  have hlt := h.solid n hn hs
  have hend := (h.stop_liesIn n hn).1
  have hrow := (h.start_liesIn n hn).row_lt_of_offset_lt (by omega)
  rw [length_lines, Node.line]
  omega

/-- A node ends no earlier than anything in it begins that takes up text. -/
theorem line_le_endLine (h : t.Ranged) (hn : n ∈ t.root.preorder) (hm : m ∈ n.preorder)
    (hs : m.isSolid = true) : m.line ≤ n.endLine := by
  have hmt := Node.mem_preorder_trans hn hm
  have hlt : m.start.offset < n.stop.offset :=
    Nat.lt_of_lt_of_le (h.solid m hmt hs) (h.encloses hn hm).2
  have hstart := h.start_liesIn m hmt
  have hstop := h.stop_liesIn n hn
  have hrow := hstart.row_le hstop (Nat.le_of_lt hlt)
  rw [Node.endLine, Node.line]
  split
  · next hcol =>
    have hne : m.start.row ≠ n.stop.row := by
      intro heq
      have := hstart.column_lt hstop hlt heq
      omega
    omega
  · omega

theorem endLine_le (h : t.Ranged) (hn : n ∈ t.root.preorder) (hs : n.isSolid = true) :
    n.endLine ≤ t.lines.length := by
  have hstart := h.start_liesIn n hn
  have hstop := h.stop_liesIn n hn
  have hlt := h.solid n hn hs
  have hrow := hstart.row_le hstop (Nat.le_of_lt hlt)
  rw [length_lines, Node.endLine]
  split
  · have hfeeds := Text.count_add_length_pieces_le (t.source.toList.take n.stop.offset)
      (t.source.toList.drop n.stop.offset)
    rw [List.take_append_drop, ← hstop.row_eq] at hfeeds
    omega
  · next hcol =>
    have hpos : 0 < n.stop.column := by
      by_contra hzero
      have hsame : n.start.row = n.stop.row := by omega
      have := hstart.column_lt hstop hlt hsame
      omega
    exact hstop.row_lt_of_column_pos hpos

end Ranged

end Tree

end SafeRefactor.Syntax
