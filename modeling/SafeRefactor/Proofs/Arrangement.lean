import Mathlib.Data.List.Pairwise
import SafeRefactor.Detect.Shape
import SafeRefactor.Proofs.Ranges

/-!
# How a tree is arranged

What is assumed of a parse tree where lines of different constructs are kept apart: siblings stand
one after the other, functions, loops and handlers stand only where statements do, a handler begins
its line, and a loop does not end among the blanks that begin one. Of two nodes, one then lies below
the other or ends before the other begins; and the constructs below a function or a loop all lie in
the statements of its body.
-/

set_option autoImplicit false

namespace SafeRefactor.Syntax

open Text Detect

/-- The forms of statements and clauses that other statements stand in. -/
def Form.holdsStatements : Form → Bool
  | .moduleUnit | .block | .ifStatement | .elifClause | .elseClause | .matchStatement | .caseClause
  | .forStatement | .whileStatement | .tryStatement | .exceptClause | .exceptGroupClause
  | .finallyClause | .withStatement | .functionDefinition | .classDefinition
  | .decoratedDefinition => true
  | _ => false

namespace Node

def holdsStatements (n : Node) : Bool :=
  match n.kind with
  | .named f => f.holdsStatements
  | _ => false

theorem holdsStatements_of_has {n : Node} {f : Form} (h : n.has f = true) :
    n.holdsStatements = f.holdsStatements := by
  simp [holdsStatements, kind_of_has h]

/-- The constructs that fixes are about. -/
def isConstruct (n : Node) : Bool :=
  n.has .functionDefinition || n.has .forStatement || n.has .exceptClause

/-- The statements that may extend a string. -/
def isAssigning (n : Node) : Bool :=
  n.has .expressionStatement || n.has .assignment || n.has .augmentedAssignment

theorem isSolid_of_isAssigning {n : Node} (h : n.isAssigning = true) : n.isSolid = true := by
  simp only [isAssigning, Bool.or_eq_true] at h
  rcases h with (h | h) | h <;> exact isSolid_of_has h rfl

/-- In document order: the second node lies below the first one or begins after its end. -/
def Precedes (a b : Node) : Prop := b ∈ preorderAll a.children ∨ a.stop.offset ≤ b.start.offset

theorem mem_namedChildren_of_holdsStatements {c n : Node} (hc : c ∈ n.children)
    (h : c.holdsStatements = true) : c ∈ n.namedChildren := by
  rw [namedChildren, List.mem_filter]
  refine ⟨hc, ?_⟩
  cases hkind : c.kind with
  | token s => simp [holdsStatements, hkind] at h
  | error => simp [holdsStatements, hkind] at h
  | named f =>
    have hne : f ≠ .comment := by
      rintro rfl
      simp [holdsStatements, hkind, Form.holdsStatements] at h
    simp [isNamed, has, hkind, hne]

end Node

namespace Point

/-- Nothing but blanks stands before the place on its row. -/
def Leads (p : Point) (cs : List Char) : Prop := (lastRow (cs.take p.offset)).all isSpace = true

instance (p : Point) (cs : List Char) : Decidable (p.Leads cs) :=
  inferInstanceAs (Decidable (_ = _))

variable {p q : Point} {cs : List Char}

theorem LiesIn.row_lt_of_leads (hp : p.LiesIn cs) (hq : q.LiesIn cs) (hleads : q.Leads cs)
    (h : p.offset < q.offset) {c : Char} (hc : cs[p.offset]? = some c)
    (hspace : isSpace c = false) :
    p.row < q.row := by
  refine Nat.lt_of_le_of_ne (hp.row_le hq (Nat.le_of_lt h)) ?_
  intro hrow
  have hblank := List.all_eq_true.mp hleads c (hp.mem_lastRow hq h hrow hc)
  simp [hspace] at hblank

theorem LiesIn.row_lt_of_not_leads (hp : p.LiesIn cs) (hq : q.LiesIn cs) (hleads : q.Leads cs)
    (h : p.offset ≤ q.offset) (hnot : ¬ p.Leads cs) : p.row < q.row := by
  refine Nat.lt_of_le_of_ne (hp.row_le hq h) ?_
  intro hrow
  rw [Leads, hp.lastRow_eq hq h hrow, List.all_append, Bool.and_eq_true] at hleads
  exact hnot hleads.1

end Point

theorem Tree.leads_of_indentation (t : Tree) {p : Point} (hp : p.LiesIn t.source.toList)
    (h : (t.indentation (p.row + 1)).utf8ByteSize = p.column) : p.Leads t.source.toList := by
  rw [Point.Leads, List.all_eq_true]
  intro c hc
  rcases t.lastRow_of_indentation hp h c hc with rfl | rfl <;> decide

/-- The clause begins with the keyword `except`, which is the first text on its line. -/
def Node.IsKeyed (n : Node) (cs : List Char) : Prop :=
  n.start.Leads cs ∧ cs[n.start.offset]?.any (!isSpace ·) = true ∧
    ∃ k ∈ n.children.head?, k.isToken "except" = true ∧ k.start = n.start ∧
      k.start.offset < k.stop.offset

instance (n : Node) (cs : List Char) : Decidable (n.IsKeyed cs) :=
  inferInstanceAs (Decidable (_ ∧ _))

namespace Tree

/-- The nodes of a tree are arranged as a parser leaves them. -/
structure Arranged (t : Tree) : Prop extends t.Ranged where
  ordered : ∀ n ∈ t.root.preorder, n.children.Pairwise fun a b => a.stop.offset ≤ b.start.offset
  /-- Functions, loops and handlers stand only in statements and clauses that hold statements. -/
  placed : ∀ n ∈ t.root.preorder, (∃ m ∈ n.preorder, m.isConstruct = true) →
    n.holdsStatements = true
  /-- The statements in a function stand in its body. -/
  inFunction : ∀ n ∈ t.root.preorder, n.has .functionDefinition = true →
    ∀ c ∈ n.children, c.holdsStatements = true → c.has .block = true ∧ c.role = some .body
  /-- The statements in a loop stand in its body or in its `else` clause. -/
  inLoop : ∀ n ∈ t.root.preorder, n.has .forStatement = true →
    ∀ c ∈ n.children, c.holdsStatements = true →
      c.has .block = true ∧ c.role = some .body ∨ c.role = some .alternative
  oneBody : ∀ n ∈ t.root.preorder, n.has .functionDefinition = true ∨ n.has .forStatement = true →
    (n.children.filter fun c => c.role = some .body).length ≤ 1
  keyword : ∀ n ∈ t.root.preorder, n.has .exceptClause = true → n.IsKeyed t.source.toList
  /-- A loop does not end among the blanks that begin a line. -/
  ends : ∀ n ∈ t.root.preorder, n.has .forStatement = true →
    n.stop.column = 0 ∨ ¬ n.stop.Leads t.source.toList

theorem arranged_iff (t : Tree) : t.Arranged ↔ t.Ranged ∧ ∀ n ∈ t.root.preorder,
    (n.children.Pairwise fun a b => a.stop.offset ≤ b.start.offset) ∧
    ((∃ m ∈ n.preorder, m.isConstruct = true) → n.holdsStatements = true) ∧
    (n.has .functionDefinition = true →
      ∀ c ∈ n.children, c.holdsStatements = true → c.has .block = true ∧ c.role = some .body) ∧
    (n.has .forStatement = true → ∀ c ∈ n.children, c.holdsStatements = true →
      c.has .block = true ∧ c.role = some .body ∨ c.role = some .alternative) ∧
    (n.has .functionDefinition = true ∨ n.has .forStatement = true →
      (n.children.filter fun c => c.role = some .body).length ≤ 1) ∧
    (n.has .exceptClause = true → n.IsKeyed t.source.toList) ∧
    (n.has .forStatement = true → n.stop.column = 0 ∨ ¬ n.stop.Leads t.source.toList) := by
  constructor
  · intro h
    exact ⟨h.toRanged, fun n hn => ⟨h.ordered n hn, h.placed n hn, h.inFunction n hn, h.inLoop n hn,
      h.oneBody n hn, h.keyword n hn, h.ends n hn⟩⟩
  · rintro ⟨hranged, h⟩
    exact ⟨hranged, fun n hn => (h n hn).1, fun n hn => (h n hn).2.1, fun n hn => (h n hn).2.2.1,
      fun n hn => (h n hn).2.2.2.1, fun n hn => (h n hn).2.2.2.2.1,
      fun n hn => (h n hn).2.2.2.2.2.1, fun n hn => (h n hn).2.2.2.2.2.2⟩

set_option synthInstance.maxSize 512 in
instance (t : Tree) : Decidable t.Arranged := decidable_of_iff _ t.arranged_iff.symm

namespace Arranged

variable {t : Tree} {a b n m : Node}

theorem preorder_precedes (h : t.Arranged) (hn : n ∈ t.root.preorder) :
    n.preorder.Pairwise Node.Precedes := by
  induction n using Node.induction with
  | node l cs ih =>
    have hchild (c : Node) (hc : c ∈ cs) : c ∈ t.root.preorder := Node.child_mem_preorder hn hc
    rw [Node.preorder_eq, List.pairwise_cons, Node.preorderAll_eq_flatMap, List.pairwise_flatMap]
    refine ⟨?_, fun c hc => ih c hc (hchild c hc), ?_⟩
    · intro m hm
      left
      rwa [Node.preorderAll_eq_flatMap]
    · refine (List.Pairwise.and_mem.mp (h.ordered _ hn)).imp ?_
      rintro c d ⟨hc, hd, hle⟩ x hx y hy
      have hxc := (h.encloses (hchild c hc) hx).2
      have hyd := (h.encloses (hchild d hd) hy).1
      exact .inr (by omega)

theorem precedes_or (h : t.Arranged) (ha : a ∈ t.root.preorder) (hb : b ∈ t.root.preorder)
    (hne : a ≠ b) : a.Precedes b ∨ b.Precedes a := by
  have hall : t.root.preorder.Pairwise fun a b => a.Precedes b ∨ b.Precedes a :=
    (h.preorder_precedes t.root.self_mem_preorder).imp .inl
  have : Std.Symm fun a b : Node => a.Precedes b ∨ b.Precedes a := ⟨fun _ _ => Or.symm⟩
  exact hall.forall ha hb hne

theorem not_precedes_self (h : t.Arranged) (ha : a ∈ t.root.preorder) (hs : a.isSolid = true) :
    ¬ a.Precedes a := by
  rintro (hbelow | hafter)
  · exact a.notMem_below hbelow
  · exact absurd hafter (Nat.not_le.mpr (h.solid a ha hs))

theorem child?_body (h : t.Arranged) (hn : n ∈ t.root.preorder)
    (hform : n.has .functionDefinition = true ∨ n.has .forStatement = true) {c : Node}
    (hc : c ∈ n.children) (hrole : c.role = some .body) : n.child? .body = some c := by
  have hmem : c ∈ n.children.filter fun c => c.role = some .body := by simp [hc, hrole]
  have hsome : (n.child? .body).isSome = true := by
    rw [Node.child?, List.find?_isSome]
    exact ⟨c, hc, by simp [hrole]⟩
  obtain ⟨d, hd⟩ := Option.isSome_iff_exists.mp hsome
  have hmem' : d ∈ n.children.filter fun c => c.role = some .body := by
    simp [Node.child?_mem hd, Node.child?_role hd]
  have hone := h.oneBody n hn hform
  match hlist : n.children.filter fun c => c.role = some .body with
  | [] => simp [hlist] at hmem
  | [x] =>
    rw [hlist, List.mem_singleton] at hmem hmem'
    rw [hd, hmem, hmem']
  | _ :: _ :: _ => simp [hlist] at hone

/-- A construct below a function, or below a loop without an `else` clause, lies in a statement of
the body. -/
theorem mem_bodyStatements (h : t.Arranged) (hn : n ∈ t.root.preorder)
    (hform : n.has .functionDefinition = true ∨
      n.has .forStatement = true ∧ n.child? .alternative = none)
    (hb : b ∈ Node.preorderAll n.children) (hconstruct : b.isConstruct = true) :
    ∃ s ∈ bodyStatements n, b ∈ s.preorder ∧ s.holdsStatements = true := by
  obtain ⟨c, hc, hbc⟩ := Node.mem_preorderAll.mp hb
  have hct := Node.child_mem_preorder hn hc
  have hholds := h.placed c hct ⟨b, hbc, hconstruct⟩
  have hbody : c.has .block = true ∧ c.role = some .body := by
    rcases hform with hfun | ⟨hloop, hno⟩
    · exact h.inFunction n hn hfun c hc hholds
    · rcases h.inLoop n hn hloop c hc hholds with hbody | helse
      · exact hbody
      · rw [Node.child?, List.find?_eq_none] at hno
        exact absurd helse (by simpa using hno c hc)
  -- the body itself is a block and so no construct
  have hne : b ≠ c := by
    rintro rfl
    simp [Node.isConstruct, Node.has, Node.kind_of_has hbody.1] at hconstruct
  rcases Node.mem_preorder_iff.mp hbc with heq | ⟨s, hs, hbs⟩
  · exact absurd heq hne
  have hsholds := h.placed s (Node.child_mem_preorder hct hs) ⟨b, hbs, hconstruct⟩
  refine ⟨s, ?_, hbs, hsholds⟩
  rw [bodyStatements, h.child?_body hn (hform.imp_right And.left) hc hbody.2]
  exact Node.mem_namedChildren_of_holdsStatements hs hsholds

theorem head_bodyStatements_le (h : t.Arranged) (hn : n ∈ t.root.preorder) {first s : Node}
    {rest : List Node} (hbody : bodyStatements n = first :: rest) (hs : s ∈ bodyStatements n) :
    first.start.offset ≤ s.start.offset := by
  have hordered : (bodyStatements n).Pairwise fun a b => a.stop.offset ≤ b.start.offset := by
    unfold bodyStatements
    cases hc : n.child? .body with
    | none => simp
    | some c => exact (h.ordered c (Node.child_mem_preorder hn (Node.child?_mem hc))).filter _
  have hfirst : first ∈ t.root.preorder :=
    Node.mem_preorder_trans hn (bodyStatements_subset (by simp [hbody]))
  rw [hbody] at hordered hs
  rcases List.mem_cons.mp hs with rfl | hs
  · exact Nat.le_refl _
  · exact (h.start_le_stop first hfirst).trans ((List.pairwise_cons.mp hordered).1 s hs)

end Arranged

end Tree

end SafeRefactor.Syntax
