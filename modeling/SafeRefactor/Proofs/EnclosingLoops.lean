import Mathlib.Data.List.Perm.Basic
import SafeRefactor.Detect.NestedLoop
import SafeRefactor.Proofs.Surroundings

/-!
# Which loops run inside others

The visitor for nested loops keeps the loops around it on a stack. Whatever it meets, it leaves the
stack as it was, and at every place the stack holds what the way up to the root says is around that
place. So it reports each loop that runs inside others over something independent of all of them,
once. Within a comprehension it does not follow the order of the text, so the order of what it
reports is left open here.
-/

set_option autoImplicit false

namespace SafeRefactor

namespace Syntax

def Node.isComprehension (n : Node) : Bool :=
  match n.kind with
  | .named f => f.isComprehension
  | _ => false

/-- The siblings to the left of the node inside a frame. -/
def Frame.preceding (f : Frame) : List Node :=
  f.parent.children.take (f.parent.children.length - (f.following.length + 1))

theorem Frame.preceding_eq {p c : Node} {ps ns : List Node} (h : p.children = ps ++ c :: ns) :
    Frame.preceding ⟨p, ns⟩ = ps := by
  simp [Frame.preceding, h]

/-- The loops that a node puts around one of its children, innermost first. A `for` statement is
around its body only; a clause of a comprehension is around the clauses after it and around all
other parts. -/
def Frame.loops (f : Frame) (n : Node) : List Node :=
  if f.parent.has .forStatement then if n.role = some .body then [f.parent] else []
  else if f.parent.isComprehension then
    ((if n.has .forInClause then f.preceding else f.parent.children).filter
      (·.has .forInClause)).reverse
  else []

namespace Cursor

/-- The loops around a place, innermost first. A function, class or lambda cuts off what is outside
it, and the top of a tree is no loop. -/
def loopsAround : Node → List Frame → List Node
  | n, f :: g :: fs =>
    if f.parent.opensScope then [] else f.loops n ++ loopsAround f.parent (g :: fs)
  | _, _ => []

/-- Whether the node inside some frames is a `for` clause of a comprehension. -/
def isClause (n : Node) : List Frame → Bool
  | f :: _ :: _ => f.parent.isComprehension && n.has .forInClause
  | _ => false

/-- Whether loops are looked for at a place: of a clause, only in what it runs over, its first child
in that role. -/
def searched : Node → List Frame → Bool
  | _, [] => true
  | n, f :: fs =>
    (!isClause f.parent fs || (n.role = some .right && f.preceding.all fun m => m.role ≠
      some .right)) &&
      searched f.parent fs

/-- Of the children of a clause, the first one that says what it runs over is searched. -/
theorem searched_below_clause {c d : Node} {frames : List Frame} {ps ns : List Node}
    (h : isClause c frames = true) (hchildren : c.children = ps ++ d :: ns) :
    searched d (⟨c, ns⟩ :: frames) = true ↔
      d.role = some .right ∧ (∀ m ∈ ps, m.role ≠ some .right) ∧ searched c frames = true := by
  simp [searched, h, Frame.preceding_eq hchildren, and_assoc]

theorem searched_below_other {c : Node} {frames : List Frame} (h : isClause c frames = false)
    (d : Node) (ns : List Node) : searched d (⟨c, ns⟩ :: frames) = searched c frames := by
  simp [searched, h]

theorem searched_of_below {n : Node} {frames : List Frame} : ∀ d ∈ sitesUnder frames n,
    searched d.node d.frames = true → searched n frames = true := by
  refine forall_sitesUnder (motive := fun d => searched d.node d.frames = true →
    searched n frames = true)
    ?_ id
  intro c hc m _ following hm
  rw [searched, Bool.and_eq_true] at hm
  exact hc hm.2

end Cursor

end Syntax

namespace Detect.NestedLoop

open Syntax Cursor

variable {t : Tree}

theorem visit_eq (n : Node) (stack : List Enclosing) : visit t n stack =
    if n.opensScope then (stack, (visitAll t n.children []).2)
    else if n.has .forStatement then
      let parts := visitParts t (.of t n) n.children stack
      (parts.1, check t stack n ++ parts.2)
    else if n.isComprehension then
      let clauses := visitClauses t n.children stack
      let rest := visitRest t n.children clauses.1
      (truncate stack.length rest.1, clauses.2 ++ rest.2)
    else visitAll t n.children stack := by
  obtain ⟨⟨kind, role, start, stop, missing, flawed⟩, cs⟩ := n
  rw [visit]
  cases kind with
  | named form =>
    by_cases hfor : form = .forStatement <;> by_cases hcomp : form.isComprehension = true
    all_goals simp [Node.children, Node.has, Node.isComprehension, Node.kind, Node.label,
      hfor, hcomp]
  | token | error => simp [Node.children, Node.has, Node.isComprehension, Node.kind, Node.label]

theorem truncate_append (more stack : List Enclosing) :
    truncate stack.length (more ++ stack) = stack := by
  simp [truncate]

/-- The clauses among some nodes, last first, as loops. -/
def clauses (t : Tree) (ns : List Node) : List Enclosing :=
  ((ns.filter (·.has .forInClause)).reverse).map (.of t)

@[simp]
theorem clauses_nil (t : Tree) : clauses t [] = [] := rfl

theorem clauses_append_clause (t : Tree) (ps : List Node) {n : Node}
    (h : n.has .forInClause = true) :
    clauses t (ps ++ [n]) = .of t n :: clauses t ps := by
  simp [clauses, h]

theorem clauses_append_other (t : Tree) (ps : List Node) {n : Node}
    (h : n.has .forInClause = false) :
    clauses t (ps ++ [n]) = clauses t ps := by
  simp [clauses, h]

/-- Visiting a node leaves the stack as it was. -/
def Balanced (t : Tree) (n : Node) : Prop := ∀ stack, (visit t n stack).1 = stack

theorem visitAll_stack {ns : List Node} (h : ∀ n ∈ ns, Balanced t n) (stack : List Enclosing) :
    (visitAll t ns stack).1 = stack := by
  induction ns with
  | nil => rw [visitAll]
  | cons n ns ih =>
    rw [visitAll]
    simp only [h n (by simp) stack]
    exact ih fun m hm => h m (by simp [hm])

theorem visitParts_stack (own : Enclosing) {ns : List Node} (h : ∀ n ∈ ns, Balanced t n)
    (stack : List Enclosing) : (visitParts t own ns stack).1 = stack := by
  induction ns with
  | nil => rw [visitParts]
  | cons n ns ih =>
    rw [visitParts]
    have hn := h n (by simp)
    have hrest := ih fun m hm => h m (by simp [hm])
    by_cases hbody : n.role = some .body
    · simp only [if_pos hbody, hn (own :: stack), List.tail_cons]
      exact hrest
    · simp only [if_neg hbody, hn stack]
      exact hrest

theorem visitIterable_stack {ns : List Node} (h : ∀ n ∈ ns, Balanced t n) (stack : List Enclosing) :
    (visitIterable t ns stack).1 = stack := by
  induction ns with
  | nil => rw [visitIterable]
  | cons n ns ih =>
    rw [visitIterable]
    split
    · exact h n (by simp) stack
    · exact ih fun m hm => h m (by simp [hm])

theorem visitRest_stack {ns : List Node} (h : ∀ n ∈ ns, Balanced t n) (stack : List Enclosing) :
    (visitRest t ns stack).1 = stack := by
  induction ns with
  | nil => rw [visitRest]
  | cons n ns ih =>
    rw [visitRest]
    have hrest := ih fun m hm => h m (by simp [hm])
    by_cases hclause : n.has .forInClause = true
    · simp only [if_pos hclause]
      exact hrest
    · simp only [if_neg hclause, h n (by simp) stack]
      exact hrest

/-- The clauses of a comprehension stay on the stack until the whole comprehension is done. -/
theorem visitClauses_stack (ps : List Node) {ns : List Node}
    (h : ∀ n ∈ ns, ∀ c ∈ n.children, Balanced t c) (stack : List Enclosing) :
    (visitClauses t ns (clauses t ps ++ stack)).1 = clauses t (ps ++ ns) ++ stack := by
  induction ns generalizing ps with
  | nil => rw [visitClauses, List.append_nil]
  | cons n ns ih =>
    cases n with
    | mk l cs =>
      have hrest := ih (ps ++ [.mk l cs]) fun m hm => h m (by simp [hm])
      rw [List.append_assoc, List.singleton_append] at hrest
      rw [visitClauses]
      by_cases hclause : (Node.mk l cs).has .forInClause = true
      · have hover : (visitIterable t cs (clauses t ps ++ stack)).1 = clauses t ps ++ stack :=
          visitIterable_stack (h (.mk l cs) (by simp)) _
        rw [clauses_append_clause t ps hclause] at hrest
        simp only [if_pos hclause, hover]
        exact hrest
      · rw [clauses_append_other t ps (by simpa using hclause)] at hrest
        simp only [if_neg hclause]
        exact hrest

/-- A clause of a comprehension visits what lies two levels below the comprehension, so that the
induction carries the children along. -/
theorem balanced (n : Node) : Balanced t n ∧ ∀ c ∈ n.children, Balanced t c := by
  induction n using Node.induction with
  | node l cs ih =>
    have hcs : ∀ c ∈ cs, Balanced t c := fun c hc => (ih c hc).1
    refine ⟨?_, hcs⟩
    intro stack
    rw [visit_eq]
    simp only [Node.children]
    split
    · rfl
    · split
      · exact visitParts_stack _ hcs stack
      · split
        · have hclauses := visitClauses_stack [] (fun c hc => (ih c hc).2) stack
          simp only [clauses_nil, List.nil_append] at hclauses
          simp only [visitRest_stack hcs, hclauses]
          exact truncate_append _ stack
        · exact visitAll_stack hcs stack

theorem visitAll_issues (ns : List Node) (stack : List Enclosing) :
    (visitAll t ns stack).2 = ns.flatMap fun n => (visit t n stack).2 := by
  induction ns with
  | nil => rw [visitAll, List.flatMap_nil]
  | cons n ns ih =>
    rw [visitAll]
    simp only [(balanced n).1 stack, ih, List.flatMap_cons]

theorem visitParts_issues (own : Enclosing) (ns : List Node) (stack : List Enclosing) :
    (visitParts t own ns stack).2 =
      ns.flatMap fun n => (visit t n (if n.role = some .body then own :: stack else stack)).2 := by
  induction ns with
  | nil => rw [visitParts, List.flatMap_nil]
  | cons n ns ih =>
    rw [visitParts]
    by_cases hbody : n.role = some .body
    · simp only [if_pos hbody, (balanced n).1 (own :: stack), List.tail_cons, ih, List.flatMap_cons]
    · simp only [if_neg hbody, (balanced n).1 stack, ih, List.flatMap_cons]

theorem visitClauses_clause {n : Node} (h : n.has .forInClause = true) (ns : List Node)
    (stack : List Enclosing) : (visitClauses t (n :: ns) stack).2 =
      (visitIterable t n.children stack).2 ++ check t stack n ++
        (visitClauses t ns (.of t n :: stack)).2 := by
  cases n with
  | mk l cs =>
    have hover : (visitIterable t cs stack).1 = stack :=
      visitIterable_stack (fun c _ => (balanced c).1) stack
    rw [visitClauses]
    simp only [if_pos h, hover, Node.children]

theorem visitClauses_other {n : Node} (h : n.has .forInClause = false) (ns : List Node)
    (stack : List Enclosing) : visitClauses t (n :: ns) stack = visitClauses t ns stack := by
  cases n with
  | mk l cs => simp only [visitClauses, h, Bool.false_eq_true, if_false]

theorem visitRest_clause {n : Node} (h : n.has .forInClause = true) (ns : List Node)
    (stack : List Enclosing) : (visitRest t (n :: ns) stack).2 = (visitRest t ns stack).2 := by
  simp [visitRest, h]

theorem visitRest_other {n : Node} (h : n.has .forInClause = false) (ns : List Node)
    (stack : List Enclosing) :
    (visitRest t (n :: ns) stack).2 = (visit t n stack).2 ++ (visitRest t ns stack).2 := by
  simp [visitRest, h, (balanced n).1 stack]

/-- The loops around a place, as they stand on the stack. -/
def stackAt (t : Tree) (n : Node) (frames : List Frame) : List Enclosing :=
  (loopsAround n frames).map (.of t)

/-- What is reported at a place itself. -/
def found (t : Tree) (c : Cursor) : List Issue :=
  if (c.node.has .forStatement || isClause c.node c.frames) && searched c.node c.frames then
    check t (stackAt t c.node c.frames) c.node
  else []

/-- The issues are those of some places, in any order. -/
def Finds (t : Tree) (cs : List Cursor) (is : List Issue) : Prop := is.Perm (cs.flatMap (found t))

theorem Finds.nil : Finds t [] [] := List.Perm.refl _

theorem Finds.append {cs ds : List Cursor} {is js : List Issue} (h : Finds t cs is)
    (k : Finds t ds js) :
    Finds t (cs ++ ds) (is ++ js) := by
  rw [Finds, List.flatMap_append]
  exact List.Perm.append h k

theorem Finds.cons {c : Cursor} {cs : List Cursor} {is : List Issue} (h : Finds t cs is) :
    Finds t (c :: cs) (found t c ++ is) := by
  rw [Finds, List.flatMap_cons]
  exact List.Perm.append_left _ h

theorem Finds.of_perm {cs : List Cursor} {is js : List Issue} (h : Finds t cs is) (k : js.Perm is) :
    Finds t cs js :=
  k.trans h

/-- Nothing is reported where loops are not looked for. -/
theorem found_of_not_searched {n : Node} {frames : List Frame} (h : searched n frames = false) :
    Finds t (sitesUnder frames n) [] := by
  rw [Finds, List.flatMap_eq_nil_iff.mpr]
  intro d hd
  have hd := mt (searched_of_below d hd) (by simp [h])
  simp [found, hd]

/-- Visiting a node with the loops around it on the stack reports what is at and below it. -/
def VisitFinds (t : Tree) (n : Node) : Prop :=
  ∀ f fs, isClause n (f :: fs) = false → searched n (f :: fs) = true →
    Finds t (sitesUnder (f :: fs) n) (visit t n (stackAt t n (f :: fs))).2

/-- The parts of a node that is no comprehension and no clause, each with its own stack. -/
theorem finds_among {n : Node} {frames : List Frame} (stack : Node → List Enclosing)
    (hplain : ∀ c following, isClause c (⟨n, following⟩ :: frames) = false)
    (hclause : isClause n frames = false) (hsearched : searched n frames = true)
    (hstack : ∀ c following, stackAt t c (⟨n, following⟩ :: frames) = stack c) {ns : List Node}
    (h : ∀ c ∈ ns, VisitFinds t c) :
    Finds t (sitesAmong n frames ns) (ns.flatMap fun c => (visit t c (stack c)).2) := by
  induction ns with
  | nil => exact Finds.nil
  | cons c ns ih =>
    have hsearch : searched c (⟨n, ns⟩ :: frames) = true := by rwa [searched_below_other hclause]
    have hfinds := h c (by simp) ⟨n, ns⟩ frames (hplain c ns) hsearch
    rw [hstack] at hfinds
    rw [sitesAmong, List.flatMap_cons]
    exact hfinds.append (ih fun m hm => h m (by simp [hm]))

variable {n c : Node} {f : Frame} {fs : List Frame}

theorem kind_of_isComprehension (h : n.isComprehension = true) :
    ∃ form, n.kind = .named form ∧ form.isComprehension = true := by
  cases hkind : n.kind with
  | named form => exact ⟨form, rfl, by simpa [Node.isComprehension, hkind] using h⟩
  | token | error => simp [Node.isComprehension, hkind] at h

theorem opensScope_of_isComprehension (h : n.isComprehension = true) : n.opensScope = false := by
  obtain ⟨form, hkind, hform⟩ := kind_of_isComprehension h
  have hscope : form.opensScope = false := by
    cases form <;> first | rfl | cases hform
  simpa [Node.opensScope, hkind] using hscope

theorem not_for_of_isComprehension (h : n.isComprehension = true) :
    n.has .forStatement = false := by
  by_contra hfor
  have hkind := Node.kind_of_has (by simpa using hfor)
  simp [Node.isComprehension, hkind, Form.isComprehension] at h

theorem not_for_of_opensScope (h : n.opensScope = true) : n.has .forStatement = false := by
  by_contra hfor
  have hkind := Node.kind_of_has (by simpa using hfor)
  simp [Node.opensScope, hkind, Form.opensScope] at h

theorem plain_of_clause (h : c.has .forInClause = true) :
    c.opensScope = false ∧ c.has .forStatement = false ∧ c.isComprehension = false := by
  have hkind := Node.kind_of_has h
  simp [Node.opensScope, Node.has, Node.isComprehension, hkind, Form.opensScope,
    Form.isComprehension]

theorem stackAt_of_clause (hn : n.isComprehension = true) (hc : c.has .forInClause = true)
    {ps ns : List Node} (hchildren : n.children = ps ++ c :: ns) :
    stackAt t c (⟨n, ns⟩ :: f :: fs) = clauses t ps ++ stackAt t n (f :: fs) := by
  simp [stackAt, loopsAround, opensScope_of_isComprehension hn, Frame.loops,
    not_for_of_isComprehension hn, hn, hc, Frame.preceding_eq hchildren, clauses]

theorem stackAt_of_rest (hn : n.isComprehension = true) (hc : c.has .forInClause = false)
    (ns : List Node) :
    stackAt t c (⟨n, ns⟩ :: f :: fs) = clauses t n.children ++ stackAt t n (f :: fs) := by
  simp [stackAt, loopsAround, opensScope_of_isComprehension hn, Frame.loops,
    not_for_of_isComprehension hn, hn, hc, clauses]

/-- Behind the child that a clause is searched in, nothing is looked for. -/
theorem finds_after (hclause : isClause c (f :: fs) = true) {m : Node}
    (hright : m.role = some .right)
    (ps : List Node) {ns : List Node} (hchildren : c.children = ps ++ ns) (hm : m ∈ ps) :
    Finds t (sitesAmong c (f :: fs) ns) [] := by
  induction ns generalizing ps with
  | nil => exact Finds.nil
  | cons d ns ih =>
    have hsearched : searched d (⟨c, ns⟩ :: f :: fs) = false := by
      rw [Bool.eq_false_iff, ne_eq, searched_below_clause hclause hchildren]
      exact fun h => h.2.1 m hm hright
    rw [sitesAmong]
    exact (found_of_not_searched hsearched).append
      (ih (ps ++ [d]) (by simp [hchildren]) (List.mem_append_left _ hm))

/-- A clause is searched in the first child that says what it runs over, with the clauses before it
on the stack. -/
theorem finds_iterable (hc : c.has .forInClause = true) (hclause : isClause c (f :: fs) = true)
    (hsearched : searched c (f :: fs) = true) (ps : List Node) {ns : List Node}
    (hchildren : c.children = ps ++ ns)
    (hfirst : ∀ m ∈ ps, m.role ≠ some .right) (h : ∀ d ∈ ns, VisitFinds t d) :
    Finds t (sitesAmong c (f :: fs) ns) (visitIterable t ns (stackAt t c (f :: fs))).2 := by
  obtain ⟨hscope, hfor, hplain⟩ := plain_of_clause hc
  induction ns generalizing ps with
  | nil =>
    rw [visitIterable]
    exact Finds.nil
  | cons d ns ih =>
    have hbelow := searched_below_clause hclause hchildren
    have hsplit : c.children = (ps ++ [d]) ++ ns := by rw [hchildren, List.append_cons]
    rw [visitIterable, sitesAmong]
    by_cases hright : d.role = some .right
    · have hstack : stackAt t d (⟨c, ns⟩ :: f :: fs) = stackAt t c (f :: fs) := by
        simp [stackAt, loopsAround, hscope, Frame.loops, hfor, hplain]
      have hfinds := h d (by simp) ⟨c, ns⟩ (f :: fs) (by simp [isClause, hplain])
        (hbelow.mpr ⟨hright, hfirst, hsearched⟩)
      rw [hstack] at hfinds
      rw [if_pos hright, ← List.append_nil (visit t d _).2]
      exact hfinds.append (finds_after hclause hright _ hsplit (by simp))
    · have hd : searched d (⟨c, ns⟩ :: f :: fs) = false := by
        rw [Bool.eq_false_iff, ne_eq, hbelow]
        exact fun h => hright h.1
      have hfirst' : ∀ m ∈ ps ++ [d], m.role ≠ some .right := by
        intro m hm
        rcases List.mem_append.mp hm with hm | hm
        · exact hfirst m hm
        · rwa [List.mem_singleton.mp hm]
      rw [if_neg hright]
      exact (found_of_not_searched hd).append (ih _ hsplit hfirst' fun m hm => h m (by simp [hm]))

/-- The parts of a comprehension from some point on: what the clauses among them run over is visited
first, then all other parts. -/
theorem finds_comprehension (hn : n.isComprehension = true) (hclause : isClause n (f :: fs) = false)
    (hsearched : searched n (f :: fs) = true) (ps : List Node) {ns : List Node}
    (hchildren : n.children = ps ++ ns)
    (h : ∀ c ∈ ns, VisitFinds t c ∧ ∀ d ∈ c.children, VisitFinds t d) :
    Finds t (sitesAmong n (f :: fs) ns)
      ((visitClauses t ns (clauses t ps ++ stackAt t n (f :: fs))).2 ++
        (visitRest t ns (clauses t n.children ++ stackAt t n (f :: fs))).2) := by
  induction ns generalizing ps with
  | nil =>
    rw [visitClauses, visitRest]
    exact Finds.nil
  | cons c ns ih =>
    have hsplit : n.children = (ps ++ [c]) ++ ns := by rw [hchildren, List.append_cons]
    have hmore := ih _ hsplit fun m hm => h m (by simp [hm])
    have hsearch : searched c (⟨n, ns⟩ :: f :: fs) = true := by rwa [searched_below_other hclause]
    obtain ⟨hvisit, hvisits⟩ := h c (by simp)
    rw [sitesAmong]
    by_cases hc : c.has .forInClause = true
    · have hown : isClause c (⟨n, ns⟩ :: f :: fs) = true := by simp [isClause, hn, hc]
      have hover := finds_iterable hc hown hsearch [] rfl (by simp) hvisits
      have hsite : found t ⟨c, ⟨n, ns⟩ :: f :: fs⟩ = check t (stackAt t c (⟨n, ns⟩ :: f :: fs))
          c := by
        simp only [found, hown, hsearch, Bool.or_true, Bool.and_self, if_true]
      have hbelow := (hover.cons (c := ⟨c, ⟨n, ns⟩ :: f :: fs⟩)).append hmore
      rw [hsite, stackAt_of_clause hn hc hchildren, clauses_append_clause t ps hc] at hbelow
      rw [visitClauses_clause hc, visitRest_clause hc, sitesUnder_eq]
      refine hbelow.of_perm ?_
      simp only [List.append_assoc, List.cons_append]
      exact List.perm_append_comm_assoc _ _ _
    · have hother : c.has .forInClause = false := by simpa using hc
      have hbelow := (hvisit ⟨n, ns⟩ (f :: fs) (by simp [isClause, hother]) hsearch).append hmore
      rw [stackAt_of_rest hn hother, clauses_append_other t ps hother] at hbelow
      rw [visitClauses_other hother, visitRest_other hother]
      exact hbelow.of_perm (List.perm_append_comm_assoc _ _ _)

theorem found_of_no_loop {c : Cursor} (hfor : c.node.has .forStatement = false)
    (hclause : isClause c.node c.frames = false) : found t c = [] := by
  simp [found, hfor, hclause]

theorem VisitFinds.of_comprehension (hn : n.isComprehension = true)
    (h : ∀ c ∈ n.children, VisitFinds t c ∧ ∀ d ∈ c.children, VisitFinds t d) : VisitFinds t n := by
  intro f fs hclause hsearched
  have hfor := not_for_of_isComprehension hn
  have hstack := visitClauses_stack [] (fun c (_ : c ∈ n.children) => (balanced c (t := t)).2)
    (stackAt t n (f :: fs))
  have hall := finds_comprehension hn hclause hsearched [] (List.nil_append n.children).symm h
  simp only [clauses_nil, List.nil_append] at hall hstack
  have hsite : found t ⟨n, f :: fs⟩ = [] := found_of_no_loop hfor hclause
  rw [visit_eq, sitesUnder_eq, if_neg (by simp [opensScope_of_isComprehension hn]),
    if_neg (by simp [hfor]), if_pos hn]
  simpa [hsite, hstack] using hall.cons (c := ⟨n, f :: fs⟩)

theorem VisitFinds.of_opensScope (hn : n.opensScope = true) (h : ∀ c ∈ n.children, VisitFinds t c) :
    VisitFinds t n := by
  intro f fs hclause hsearched
  have hplain : n.isComprehension = false := by
    by_contra hcomp
    simp [opensScope_of_isComprehension (by simpa using hcomp)] at hn
  have hsite : found t ⟨n, f :: fs⟩ = [] := found_of_no_loop (not_for_of_opensScope hn) hclause
  have hall := finds_among (fun _ => []) (by simp [isClause, hplain]) hclause hsearched
    (fun c ns => by simp [stackAt, loopsAround, hn]) h
  rw [visit_eq, sitesUnder_eq, if_pos hn, visitAll_issues]
  simpa [hsite] using hall.cons (c := ⟨n, f :: fs⟩)

theorem VisitFinds.of_for (hn : n.has .forStatement = true) (h : ∀ c ∈ n.children, VisitFinds t c) :
    VisitFinds t n := by
  intro f fs hclause hsearched
  have hkind := Node.kind_of_has hn
  have hscope : n.opensScope = false := by simp [Node.opensScope, hkind, Form.opensScope]
  have hplain : n.isComprehension = false := by
    simp [Node.isComprehension, hkind, Form.isComprehension]
  have hsite : found t ⟨n, f :: fs⟩ = check t (stackAt t n (f :: fs)) n := by
    simp only [found, hn, hsearched, Bool.true_or, Bool.and_self, if_true]
  have hstack (c : Node) (ns : List Node) : stackAt t c (⟨n, ns⟩ :: f :: fs) =
      if c.role = some .body then .of t n :: stackAt t n (f :: fs) else stackAt t n (f :: fs) := by
    by_cases hbody : c.role = some .body
    all_goals simp [stackAt, loopsAround, hscope, Frame.loops, hn, hbody]
  have hall := finds_among _ (by simp [isClause, hplain]) hclause hsearched hstack h
  rw [visit_eq, sitesUnder_eq, if_neg (by simp [hscope]), if_pos hn]
  simp only [visitParts_issues, ← hsite]
  exact hall.cons

theorem VisitFinds.of_other (hscope : n.opensScope = false) (hfor : n.has .forStatement = false)
    (hplain : n.isComprehension = false) (h : ∀ c ∈ n.children, VisitFinds t c) :
    VisitFinds t n := by
  intro f fs hclause hsearched
  have hsite : found t ⟨n, f :: fs⟩ = [] := found_of_no_loop hfor hclause
  have hall := finds_among (fun _ => stackAt t n (f :: fs)) (by simp [isClause, hplain]) hclause
    hsearched (fun c ns => by simp [stackAt, loopsAround, hscope, Frame.loops, hfor, hplain]) h
  rw [visit_eq, sitesUnder_eq, if_neg (by simp [hscope]), if_neg (by simp [hfor]),
    if_neg (by simp [hplain]), visitAll_issues]
  simpa [hsite] using hall.cons (c := ⟨n, f :: fs⟩)

theorem visit_finds (n : Node) : VisitFinds t n ∧ ∀ c ∈ n.children, VisitFinds t c := by
  induction n using Node.induction with
  | node l cs ih =>
    have hcs : ∀ c ∈ (Node.mk l cs).children, VisitFinds t c := fun c hc => (ih c hc).1
    refine ⟨?_, hcs⟩
    by_cases hcomp : (Node.mk l cs).isComprehension = true
    · exact .of_comprehension hcomp ih
    by_cases hscope : (Node.mk l cs).opensScope = true
    · exact .of_opensScope hscope hcs
    by_cases hfor : (Node.mk l cs).has .forStatement = true
    · exact .of_for hfor hcs
    · simp only [Bool.not_eq_true] at hcomp hscope hfor
      exact .of_other hscope hfor hcomp hcs

/-- The top of a tree is visited as no loop, whatever it is. -/
theorem issues_found (t : Tree) : Finds t t.sites (issues t) := by
  have hsite : found t ⟨t.root, []⟩ = [] := by simp [found, stackAt, loopsAround, check]
  have hall : Finds t (sitesAmong t.root [] t.root.children)
      (t.root.children.flatMap fun c => (visit t c []).2) :=
    finds_among _ (fun _ _ => rfl) rfl rfl (fun _ _ => rfl) fun c _ => (visit_finds c).1
  rw [Tree.sites, Cursor.sites_eq, sitesUnder_eq, issues, visitAll_issues]
  simpa [hsite] using hall.cons (c := ⟨t.root, []⟩)

/-- A loop inside others that runs over something no name of which a loop around it binds. -/
structure Nested (t : Tree) (c : Cursor) : Prop where
  loop : c.node.has .forStatement = true ∨ isClause c.node c.frames = true
  searched : searched c.node c.frames = true
  inside : loopsAround c.node c.frames ≠ []
  independent : ∀ outer ∈ loopsAround c.node c.frames, ∀ target, outer.child? .left = some target →
    ∀ iterable, c.node.child? .right = some iterable → List.Disjoint (t.namesOf target)
      (t.namesOf iterable)

/-- The text of what a loop runs over. -/
def runsOver (t : Tree) (n : Node) : String := ((n.child? .right).map t.text).getD ""

/-- The issue is about the loop at a place inside the innermost loop around it. -/
structure About (t : Tree) (c : Cursor) (i : Issue) : Prop where
  line_eq : i.line = c.node.line
  column_eq : i.column = c.node.column
  description_eq : ∃ outer, (loopsAround c.node c.frames).head? = some outer ∧
    i.description = "Loop over \x60" ++ abbreviate (runsOver t c.node) ++
      "\x60 nested inside loop over \x60" ++ abbreviate (runsOver t outer) ++
      "\x60 (possible O(n^2))"

theorem independent_iff (t : Tree) (outer n : Node) :
    (!(Enclosing.of t outer).names.any (((n.child? .right).map t.namesOf).getD []).contains) =
        true ↔
      ∀ target, outer.child? .left = some target → ∀ iterable, n.child? .right = some iterable →
        List.Disjoint (t.namesOf target) (t.namesOf iterable) := by
  cases htarget : outer.child? .left with
  | none => simp [Enclosing.of, htarget]
  | some target =>
    cases n.child? .right with
    | none => simp [Enclosing.of, htarget]
    | some iterable => simp [Enclosing.of, htarget, List.Disjoint]

theorem check_eq (t : Tree) (outer : Node) (rest : List Node) (n : Node) :
    check t ((outer :: rest).map (.of t)) n =
      if (outer :: rest).all fun m =>
          !(Enclosing.of t m).names.any (((n.child? .right).map t.namesOf).getD []).contains
      then [issue t n (runsOver t n) (runsOver t outer)] else [] := by
  simp only [check, List.map_cons, List.all_cons, List.all_map]
  rfl

theorem found_of_nested {c : Cursor} (h : Nested t c) : ∃ i, found t c = [i] ∧ About t c i := by
  obtain ⟨outer, rest, hloops⟩ := List.exists_cons_of_ne_nil h.inside
  have hloop : (c.node.has .forStatement || isClause c.node c.frames) = true := by
    simpa using h.loop
  have hindependent := h.independent
  simp only [← independent_iff, hloops] at hindependent
  refine ⟨issue t c.node (runsOver t c.node) (runsOver t outer), ?_, rfl, rfl, outer, by
    simp [hloops], rfl⟩
  rw [found, hloop, h.searched, Bool.and_self, if_pos rfl, stackAt, hloops, check_eq,
    if_pos (List.all_eq_true.mpr hindependent)]

theorem nested_of_found {c : Cursor} (h : found t c ≠ []) : Nested t c := by
  rw [found, ne_eq, ite_eq_right_iff, Classical.not_imp] at h
  obtain ⟨hplace, hcheck⟩ := h
  obtain ⟨hloop, hsearched⟩ := Bool.and_eq_true_iff.mp hplace
  cases hloops : loopsAround c.node c.frames with
  | nil => simp [stackAt, hloops, check] at hcheck
  | cons outer rest =>
    rw [stackAt, hloops, check_eq, ite_eq_right_iff, Classical.not_imp] at hcheck
    refine ⟨by simpa using hloop, hsearched, by simp [hloops], ?_⟩
    rw [hloops]
    intro m hm
    exact (independent_iff t m c.node).mp (List.all_eq_true.mp hcheck.1 m hm)

instance (t : Tree) (c : Cursor) : Decidable (Nested t c) :=
  decidable_of_iff (found t c ≠ []) ⟨nested_of_found, fun h => by
    obtain ⟨i, hi, _⟩ := found_of_nested h
    simp [hi]⟩

theorem found_about (t : Tree) (cs : List Cursor) :
    List.Forall₂ (About t) (cs.filter fun c => Nested t c) (cs.flatMap (found t)) := by
  induction cs with
  | nil => exact .nil
  | cons c cs ih =>
    rw [List.flatMap_cons]
    by_cases h : Nested t c
    · obtain ⟨i, hi, habout⟩ := found_of_nested h
      rw [List.filter_cons_of_pos (by simpa using h), hi]
      exact .cons habout ih
    · have hnone : found t c = [] := by
        by_contra hsome
        exact h (nested_of_found hsome)
      rw [List.filter_cons_of_neg (by simpa using h), hnone]
      exact ih

/-- The loops of a tree that run inside others over something independent of them are reported, each
once, with the innermost loop around it; and whatever is visited, the stack of loops is afterwards
what it was before. -/
theorem nested_exact (t : Tree) :
    (∀ n stack, (visit t n stack).1 = stack) ∧ t.sites.map (·.node) = t.root.preorder ∧
      ∃ loops : List Cursor, loops.Nodup ∧ (∀ c, c ∈ loops ↔ c ∈ t.sites ∧ Nested t c) ∧
        List.Forall₂ (About t) loops (issues t) := by
  refine ⟨fun n => (balanced n).1, Cursor.sites_nodes t.root, ?_⟩
  obtain ⟨loops, habout, hperm⟩ := List.perm_comp_forall₂ (issues_found t)
    (found_about t t.sites).flip
  refine ⟨loops, hperm.nodup_iff.mpr (t.sites_nodup.filter _), ?_, habout.flip⟩
  intro c
  rw [hperm.mem_iff, List.mem_filter, decide_eq_true_eq]

-- The second clause runs over something that the first one binds, and the `else` part is not in the
-- loop.
example :
    let source := "for x in xs:\n    [z for y in ys for z in f(y)]\nelse:\n    for w in ws: 0\n"
    (issues ⟨source, Tree.rootOf source.toList⟩).map (fun i => (i.line, i.column)) = [(2, 8)] := by
  decide +kernel

end Detect.NestedLoop

end SafeRefactor
