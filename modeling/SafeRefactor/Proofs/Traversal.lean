import SafeRefactor.Detect.Shape

/-!
# Traversals

A tour that moves a cursor through a tree step by step visits the nodes that the recursive listing
`Node.preorder` gives, in the same order. What it still has to visit is written in the frames of the
cursor, and every step either takes the first of these places or climbs a level.
-/

set_option autoImplicit false

namespace SafeRefactor

namespace Syntax

namespace Node

/-- What holds of a node if it holds of its children holds of every node. -/
@[elab_as_elim]
theorem induction {motive : Node → Prop}
    (node : ∀ l cs, (∀ c ∈ cs, motive c) → motive (.mk l cs)) (n : Node) : motive n := by
  refine @Node.rec motive (fun cs => ∀ c ∈ cs, motive c) node ?_ ?_ n
  · simp
  · intro c cs hc hcs
    simpa using ⟨hc, hcs⟩

theorem preorder_eq (n : Node) : n.preorder = n :: preorderAll n.children := by
  cases n with
  | mk l cs => rw [preorder, children]

theorem preorderAll_eq_flatMap (ns : List Node) : preorderAll ns = ns.flatMap preorder := by
  induction ns with
  | nil => rfl
  | cons n ns ih => rw [preorderAll, ih, List.flatMap_cons]

@[simp]
theorem mem_preorderAll {m : Node} {ns : List Node} :
    m ∈ preorderAll ns ↔ ∃ n ∈ ns, m ∈ n.preorder := by
  rw [preorderAll_eq_flatMap, List.mem_flatMap]

theorem mem_preorder_iff {m n : Node} :
    m ∈ n.preorder ↔ m = n ∨ ∃ c ∈ n.children, m ∈ c.preorder := by
  rw [preorder_eq, List.mem_cons, mem_preorderAll]

@[simp]
theorem self_mem_preorder (n : Node) : n ∈ n.preorder := by
  rw [preorder_eq]
  exact List.mem_cons_self

theorem mem_preorder_of_child {m c n : Node} (hc : c ∈ n.children) (hm : m ∈ c.preorder) :
    m ∈ n.preorder :=
  mem_preorder_iff.mpr (.inr ⟨c, hc, hm⟩)

theorem size_lt_of_child {c n : Node} (h : c ∈ n.children) : c.size < n.size := by
  have hall (ns : List Node) (hc : c ∈ ns) : c.size ≤ Node.sizeAll ns := by
    induction ns with
    | nil => cases hc
    | cons m ns ih =>
      rw [Node.sizeAll]
      rcases List.mem_cons.mp hc with rfl | hc
      · omega
      · have := ih hc
        omega
  cases n with
  | mk l cs =>
    rw [Node.size]
    exact Nat.lt_succ_of_le (hall cs h)

theorem size_le_of_mem_preorder {m n : Node} (h : m ∈ n.preorder) : m.size ≤ n.size := by
  induction n using Node.induction with
  | node l cs ih =>
    rcases mem_preorder_iff.mp h with rfl | ⟨c, hc, hm⟩
    · exact Nat.le_refl _
    · exact Nat.le_trans (ih c hc hm) (Nat.le_of_lt (size_lt_of_child hc))

theorem notMem_below (n : Node) : n ∉ preorderAll n.children := by
  intro h
  obtain ⟨c, hc, hn⟩ := mem_preorderAll.mp h
  exact absurd (size_le_of_mem_preorder hn) (Nat.not_le.mpr (size_lt_of_child hc))

theorem mem_preorder_trans {a b root : Node} (ha : a ∈ root.preorder) (hb : b ∈ a.preorder) :
    b ∈ root.preorder := by
  induction root using Node.induction with
  | node l cs ih =>
    rcases mem_preorder_iff.mp ha with rfl | ⟨c, hc, hac⟩
    · exact hb
    · exact mem_preorder_of_child hc (ih c hc hac)

theorem child_mem_preorder {c n root : Node} (hn : n ∈ root.preorder) (hc : c ∈ n.children) :
    c ∈ root.preorder :=
  mem_preorder_trans hn (mem_preorder_of_child hc c.self_mem_preorder)

theorem length_preorderAll {ns : List Node} (h : ∀ n ∈ ns, n.preorder.length = n.size) :
    (preorderAll ns).length = sizeAll ns := by
  induction ns with
  | nil => rfl
  | cons n ns ih =>
    rw [preorderAll, List.length_append, h n (by simp), ih fun m hm => h m (by simp [hm]), sizeAll]

theorem length_preorder (n : Node) : n.preorder.length = n.size := by
  induction n using Node.induction with
  | node l cs ih => rw [preorder, List.length_cons, length_preorderAll ih, size]

theorem kind_of_has {n : Node} {f : Form} (h : n.has f = true) : n.kind = .named f := by
  simpa [has] using h

theorem child?_mem {n c : Node} {r : Role} (h : n.child? r = some c) : c ∈ n.children :=
  List.mem_of_find?_eq_some h

theorem child?_role {n c : Node} {r : Role} (h : n.child? r = some c) : c.role = some r := by
  simpa using List.find?_some h

theorem namedChildren_subset {n c : Node} (h : c ∈ n.namedChildren) : c ∈ n.children :=
  (List.mem_filter.mp h).1

end Node

namespace Cursor

mutual

/-- The places at and below a node that stands inside some frames, in document order. -/
def sitesUnder (frames : List Frame) : Node → List Cursor
  | .mk l cs => ⟨.mk l cs, frames⟩ :: sitesAmong (.mk l cs) frames cs

/-- The places at and below some children of a node. -/
def sitesAmong (parent : Node) (frames : List Frame) : List Node → List Cursor
  | [] => []
  | n :: ns => sitesUnder (⟨parent, ns⟩ :: frames) n ++ sitesAmong parent frames ns

end

theorem sitesUnder_eq (frames : List Frame) (n : Node) :
    sitesUnder frames n = ⟨n, frames⟩ :: sitesAmong n frames n.children := by
  cases n with
  | mk l cs => rw [sitesUnder, Node.children]

/-- The places below a node show the nodes below it. -/
theorem sitesUnder_nodes (frames : List Frame) (n : Node) :
    (sitesUnder frames n).map (·.node) = n.preorder := by
  induction n using Node.induction generalizing frames with
  | node l cs ih =>
    have hall (parent : Node) (ns : List Node)
        (h : ∀ n ∈ ns, ∀ frames, (sitesUnder frames n).map (·.node) = n.preorder) :
        (sitesAmong parent frames ns).map (·.node) = Node.preorderAll ns := by
      induction ns with
      | nil => rfl
      | cons n ns ihns =>
        rw [sitesAmong, List.map_append, h n (by simp), ihns fun m hm => h m (by simp [hm]),
          Node.preorderAll]
    rw [sitesUnder, List.map_cons, Node.preorder, hall _ cs fun c hc frames => ih c hc frames]

/-- The places that are still to be visited once the node inside the first of some frames is done.
-/
def pending : List Frame → List Cursor
  | [] => []
  | f :: fs => sitesAmong f.parent fs f.following ++ pending fs

end Cursor

namespace Tour

open Cursor

variable {ρ : Type} {t : Tour ρ} {s s' : State ρ}

/-- The places that a tour has still to arrive at, if it passes over none. -/
def State.ahead : State ρ → List Cursor
  | .arriving _ c => sitesUnder c.frames c.node ++ pending c.frames
  | .leaving _ c => pending c.frames
  | _ => []

/-- Whether a tour is at an end. -/
def State.isOver : State ρ → Bool
  | .arriving _ _ | .leaving _ _ => false
  | _ => true

/-- A bound on the steps that a tour has still to make: two for each place ahead, and one for each
level that it has to climb. -/
def State.cost : State ρ → Nat
  | .arriving r c => 2 * (State.arriving r c).ahead.length + c.depth
  | .leaving r c => 2 * (State.leaving r c).ahead.length + c.depth + 1
  | _ => 0

/-- What a step of a tour that is not at an end can be. -/
inductive Move (t : Tour ρ) : State ρ → State ρ → Prop where
  | stop {r : ρ} {n : Node} {fs : List Frame} (hs : t.stops r n = true) :
      Move t (.arriving r ⟨n, fs⟩) (.stopped ⟨n, fs⟩)
  | down {r : ρ} {n m : Node} {ms : List Node} {fs : List Frame} (hs : t.stops r n = false)
      (he : t.enters n = true) (hc : n.children = m :: ms) :
      Move t (.arriving r ⟨n, fs⟩) (.arriving (t.down r) ⟨m, ⟨n, ms⟩ :: fs⟩)
  | turn {r : ρ} {n : Node} {fs : List Frame} (hs : t.stops r n = false)
      (he : t.enters n = false ∨ n.children = []) :
      Move t (.arriving r ⟨n, fs⟩) (.leaving r ⟨n, fs⟩)
  | on {r : ρ} {n p m : Node} {ms : List Node} {fs : List Frame} :
      Move t (.leaving r ⟨n, ⟨p, m :: ms⟩ :: fs⟩) (.arriving r ⟨m, ⟨p, ms⟩ :: fs⟩)
  | up {r above : ρ} {n p : Node} {fs : List Frame} (hu : t.up r = some above) :
      Move t (.leaving r ⟨n, ⟨p, []⟩ :: fs⟩) (.leaving above ⟨p, fs⟩)
  | lose {r : ρ} {n p : Node} {fs : List Frame} (hu : t.up r = none) :
      Move t (.leaving r ⟨n, ⟨p, []⟩ :: fs⟩) .astray
  | finish {r : ρ} {n : Node} : Move t (.leaving r ⟨n, []⟩) .finished

theorem step_move (h : s.isOver = false) : Move t s (t.step s) := by
  cases s with
  | stopped | finished | astray => cases h
  | arriving r c =>
    obtain ⟨n, fs⟩ := c
    by_cases hs : t.stops r n = true
    · rw [step, if_pos hs]
      exact .stop hs
    have hs' : t.stops r n = false := by simpa using hs
    by_cases he : t.enters n = true
    · cases hc : n.children with
      | nil => simpa [step, hs', he, firstChild?, hc] using Move.turn hs' (.inr hc)
      | cons m ms => simpa [step, hs', he, firstChild?, hc] using Move.down hs' he hc
    · have he' : t.enters n = false := by simpa using he
      simpa [step, hs', he'] using Move.turn hs' (.inl he')
  | leaving r c =>
    obtain ⟨n, _ | ⟨⟨p, _ | ⟨m, ms⟩⟩, fs⟩⟩ := c
    · exact .finish
    · cases hu : t.up r with
      | some above => simpa [step, nextSibling?, parent?, hu] using Move.up hu
      | none => simpa [step, nextSibling?, parent?, hu] using Move.lose hu
    · exact .on

/-- Every step of a tour brings it nearer to its end. -/
theorem Move.cost_lt (h : Move t s s') : s'.cost < s.cost := by
  cases h with
  | stop | turn | lose | finish => simp [State.cost, State.ahead, sitesUnder_eq, depth] <;> omega
  | down hs he hc =>
    simp [State.cost, State.ahead, sitesUnder_eq, sitesAmong, pending, depth, hc]; omega
  | on | up hu => simp [State.cost, State.ahead, sitesAmong, pending, depth]

theorem step_of_isOver (h : s.isOver = true) : t.step s = s := by
  cases s with
  | arriving | leaving => cases h
  | stopped | finished | astray => rfl

theorem ahead_of_isOver (h : s.isOver = true) : s.ahead = [] := by
  cases s with
  | arriving | leaving => cases h
  | stopped | finished | astray => rfl

theorem arrival?_of_isOver (h : s.isOver = true) : s.arrival? = none := by
  cases s with
  | arriving | leaving => cases h
  | stopped | finished | astray => rfl

theorem cost_eq_zero_iff : s.cost = 0 ↔ s.isOver = true := by
  cases s <;> simp [State.cost, State.ahead, State.isOver, sitesUnder_eq]

theorem cost_outset (t : Tour ρ) (root : Node) : (t.outset root).cost = bound root := by
  rw [bound, ← root.length_preorder, ← sitesUnder_nodes [] root, List.length_map]
  simp [outset, ofRoot, State.cost, State.ahead, pending, depth]

/-- The full tour goes through the places ahead of it one by one. -/
theorem full_ahead {s s' : State Unit} (h : Move full s s') :
    s.ahead = s.arrival?.toList ++ s'.ahead := by
  cases h with
  | stop hs => cases hs
  | down hs he hc => simp [State.ahead, State.arrival?, sitesUnder_eq, sitesAmong, pending, hc]
  | turn hs he =>
    rcases he with he | hc
    · cases he
    · simp [State.ahead, State.arrival?, sitesUnder_eq, sitesAmong, hc]
  | on | up => simp [State.ahead, State.arrival?, sitesAmong, pending]
  | lose hu => cases hu
  | finish => simp [State.ahead, State.arrival?, pending]

theorem arrivals_succ (t : Tour ρ) (n : Nat) (s : State ρ) :
    t.arrivals (n + 1) s = s.arrival?.toList ++ t.arrivals n (t.step s) := by
  rw [arrivals]
  cases s.arrival? <;> rfl

theorem arrivals_full (n : Nat) (s : State Unit) (h : s.cost ≤ n) :
    full.arrivals n s = s.ahead := by
  induction n generalizing s with
  | zero =>
    have hover := cost_eq_zero_iff.mp (Nat.le_zero.mp h)
    rw [arrivals, ahead_of_isOver hover]
  | succ n ih =>
    rw [arrivals_succ]
    by_cases hover : s.isOver = true
    · have hcost := cost_eq_zero_iff.mpr hover
      rw [step_of_isOver hover, arrival?_of_isOver hover, ih s (by omega)]
      rfl
    · have hmove : Move full s (full.step s) := step_move (by simpa using hover)
      have hless := hmove.cost_lt
      rw [full_ahead hmove, ih _ (by omega)]

end Tour

namespace Cursor

/-- A cursor that goes through a tree step by step visits the places that the recursion lists. -/
theorem sites_eq (root : Node) : sites root = sitesUnder [] root := by
  rw [sites, Tour.arrivals_full _ _ (Nat.le_of_eq (Tour.cost_outset Tour.full root))]
  simp [Tour.outset, Tour.State.ahead, ofRoot, pending]

theorem sites_nodes (root : Node) : (sites root).map (·.node) = root.preorder := by
  rw [sites_eq, sitesUnder_nodes]

end Cursor

namespace Tree

theorem nodes_eq_preorder (t : Tree) : t.nodes = t.root.preorder := Cursor.sites_nodes t.root

theorem functions_nodes (t : Tree) :
    t.functions.map (·.node) = t.root.preorder.filter (·.has .functionDefinition) := by
  rw [← nodes_eq_preorder, nodes, functions, List.filter_map]
  rfl

end Tree

end Syntax

theorem Detect.bodyStatements_subset {n s : Syntax.Node} (h : s ∈ bodyStatements n) :
    s ∈ n.preorder := by
  unfold bodyStatements at h
  cases hbody : n.child? .body with
  | none => simp [hbody] at h
  | some body =>
    have hs : s ∈ body.children := Syntax.Node.namedChildren_subset (by simpa [hbody] using h)
    exact Syntax.Node.child_mem_preorder
      (Syntax.Node.mem_preorder_of_child (Syntax.Node.child?_mem hbody) (by simp)) hs

end SafeRefactor
