import SafeRefactor.Proofs.Atomicity
import SafeRefactor.Proofs.Searches

/-!
# When a tree is accepted

A text is accepted if nothing in its tree is in error and nothing lies too deep. Both searches find
the first node of the whole tree that they are after. The search for errors does not go into every
node, so that depends on the marks of the tree; the other one goes by its count of levels, which is
always right. What is accepted is at most `maxDepth` levels deep, and no recursion that goes down it
from node to node is nested deeper.
-/

set_option autoImplicit false

namespace SafeRefactor.Syntax

open Cursor

section Faults

variable {root : Node}

/-- The marks of a tree are right: those nodes are marked as flawed that are in error or above one
in error. -/
def Node.Marked (root : Node) : Prop :=
  ∀ n ∈ root.preorder, n.label.flawed = true ↔ ∃ m ∈ n.preorder, m.isFaulty = true

instance (root : Node) : Decidable root.Marked :=
  inferInstanceAs (Decidable (∀ n ∈ root.preorder, _))

theorem Cursor.node_mem_of_mem_sitesAmong {n : Node} {frames : List Frame} {d : Cursor}
    (h : d ∈ sitesAmong n frames n.children) : d.node ∈ n.preorder := by
  rw [← sitesUnder_nodes frames n, sitesUnder_eq]
  exact List.mem_map_of_mem (List.mem_cons_of_mem _ h)

/-- The first place whose node has a property holds the first node that has it. -/
theorem Cursor.find?_sites (p : Node → Bool) (root : Node) :
    ((sites root).find? fun c => p c.node).map (·.node) = root.preorder.find? p := by
  rw [← sites_nodes, List.find?_map]
  rfl

theorem Tour.toFault_thorough (h : root.Marked) : Tour.toFault.Thorough root := by
  intro c hc _ hclean d hd
  have hunmarked : c.node.label.flawed = false := hclean
  have hnone := mt (h c.node (mem_preorder_of_mem_sites hc).1).mpr (by simp [hunmarked])
  exact Bool.eq_false_iff.mpr fun hfaulty => hnone ⟨d.node, node_mem_of_mem_sitesAmong hd, hfaulty⟩

theorem Tour.wants_toFault : Tour.toFault.wants = fun c => c.node.isFaulty := rfl

/-- If the search passes over nothing in error, the first node in error is blamed, or the root of a
tree that is flawed without a node in error. -/
theorem Node.firstFault_eq (h : Tour.toFault.Thorough root) : root.firstFault =
    if root.label.flawed = true then
    some (((root.preorder.find? isFaulty).map fault).getD root.fault)
    else none := by
  rw [firstFault, Tour.result_eq h, Tour.wants_toFault, ← find?_sites]
  cases (sites root).find? fun c => c.node.isFaulty <;> rfl

/-- A marked tree has a node in error, and the search ends at the first one. -/
theorem Tour.toFault_result (h : root.Marked) (hflawed : root.label.flawed = true) :
    ∃ c, Tour.toFault.result root = .stopped c ∧
      (sites root).find? (fun d => d.node.isFaulty) = some c := by
  obtain ⟨m, hm, hfaulty⟩ := (h root root.self_mem_preorder).mp hflawed
  rw [← sites_nodes, List.mem_map] at hm
  obtain ⟨d, hd, rfl⟩ := hm
  have hsome : ((sites root).find? fun d => d.node.isFaulty).isSome = true :=
    List.find?_isSome.mpr ⟨d, hd, hfaulty⟩
  obtain ⟨c, hc⟩ := Option.isSome_iff_exists.mp hsome
  refine ⟨c, ?_, hc⟩
  rw [Tour.result_eq (toFault_thorough h), wants_toFault, hc]

theorem Node.firstFault_of_marked (h : root.Marked) :
    root.firstFault = (root.preorder.find? isFaulty).map fault := by
  have hmark := h root root.self_mem_preorder
  rw [firstFault_eq (Tour.toFault_thorough h)]
  cases hfind : root.preorder.find? isFaulty with
  | none =>
    have hclean : ¬ root.label.flawed = true := by
      rw [hmark]
      simpa using hfind
    rw [if_neg hclean, Option.map_none]
  | some n =>
    have hflawed := hmark.mpr ⟨n, List.mem_of_find?_eq_some hfind, List.find?_some hfind⟩
    rw [if_pos hflawed, Option.map_some, Option.getD_some]

theorem Tree.parse_of_fault {source : String} {f : Fault}
    (h : (rootOf source.toList).firstFault = some f) : parse source = .error f := by
  unfold parse
  dsimp only
  rw [h]

/-- In a tree whose marks are right, the search for errors ends at the first node of the whole tree
that is in error, whenever the root is marked at all: it passes over none, and never comes to blame
the root for want of one. A tree has no fault exactly if no node of it is in error, and otherwise
the fault of its first such node, for which its text is then rejected. -/
theorem Node.firstFault_exact (root : Node) (h : root.Marked) :
    (root.label.flawed = true → ∃ c, Tour.toFault.result root = .stopped c ∧
      (sites root).find? (fun d => d.node.isFaulty) = some c) ∧
    (root.firstFault = none ↔ ∀ n ∈ root.preorder, n.isFaulty = false) ∧
    root.firstFault = (root.preorder.find? isFaulty).map fault ∧
    ∀ source, Tree.rootOf source.toList = root → ∀ n, root.preorder.find? isFaulty = some n →
      Tree.parse source = .error n.fault := by
  refine ⟨Tour.toFault_result h, ?_, firstFault_of_marked h, ?_⟩
  · rw [firstFault_of_marked h, Option.map_eq_none_iff, List.find?_eq_none]
    simp
  · rintro source rfl n hn
    exact Tree.parse_of_fault (by rw [firstFault_of_marked h, hn, Option.map_some])

/-- A missing parenthesis stands before another stretch in error, and a sound statement before both.
-/
theorem Node.firstFault_exact_missing :
    let label (k : Kind) (first last : Nat) (missing flawed : Bool) : Label :=
      { kind := k, start := ⟨first, 0, first⟩, stop := ⟨last, 0, last⟩, missing, flawed }
    let sound : Node := .mk (label (.named .expressionStatement) 0 1 false false)
      [.mk (label (.named .identifier) 0 1 false false) []]
    let lacking : Node := .mk (label (.token ")") 5 5 true true) []
    let group : Node := .mk (label (.named .parenthesizedExpression) 3 5 false true)
      [.mk (label (.token "(") 3 4 false false) [], lacking]
    let stray : Node := .mk (label .error 6 7 false true)
      [.mk (label (.token "=") 6 7 false false) []]
    let root : Node := .mk (label (.named .moduleUnit) 0 7 false true) [sound, group, stray]
    root.Marked ∧ root.firstFault = some (.missing ")" 1 6) := by
  intro label sound lacking group stray root
  have hmarked : root.Marked := by decide +kernel
  have hfind : root.preorder.find? isFaulty = some lacking := rfl
  refine ⟨hmarked, ?_⟩
  rw [(firstFault_exact root hmarked).2.2.1, hfind]
  rfl

-- A mark that no node accounts for: the tree is blamed as a whole.
example :
    (Node.mk { kind := .named .moduleUnit, start := ⟨2, 0, 2⟩, stop := ⟨9, 0, 9⟩, flawed := true }
      []).firstFault =
      some (.invalid 1 3) := by
  decide +kernel

end Faults

section Levels

namespace Node

mutual

/-- The number of levels below a node. -/
def height : Node → Nat
  | mk _ cs => heightAll cs

/-- The number of levels that a list of nodes takes up. -/
def heightAll : List Node → Nat
  | [] => 0
  | n :: ns => max (height n + 1) (heightAll ns)

end

theorem height_eq (n : Node) : n.height = heightAll n.children := by
  cases n with
  | mk l cs => rw [height, children]

theorem heightAll_le_iff {ns : List Node} {k : Nat} :
    heightAll ns ≤ k ↔ ∀ n ∈ ns, n.height < k := by
  induction ns with
  | nil => simp [heightAll]
  | cons n ns ih => rw [heightAll, Nat.max_le, ih, List.forall_mem_cons, Nat.succ_le_iff]

/-- Whether a node is somewhere below another one. -/
def Below (m n : Node) : Prop := ∃ c ∈ n.children, m ∈ c.preorder

theorem height_lt_of_child {c n : Node} (h : c ∈ n.children) : c.height < n.height := by
  rw [n.height_eq]
  exact heightAll_le_iff.mp (Nat.le_refl _) c h

theorem height_le_of_mem_preorder {m n : Node} (h : m ∈ n.preorder) : m.height ≤ n.height := by
  induction n using Node.induction with
  | node l cs ih =>
    rcases mem_preorder_iff.mp h with rfl | ⟨c, hc, hm⟩
    · exact Nat.le_refl _
    · exact Nat.le_trans (ih c hc hm) (Nat.le_of_lt (height_lt_of_child hc))

theorem Below.height_lt {m n : Node} (h : m.Below n) : m.height < n.height := by
  obtain ⟨c, hc, hm⟩ := h
  exact Nat.lt_of_le_of_lt (height_le_of_mem_preorder hm) (height_lt_of_child hc)

/-- A way down a tree has no more steps than there are levels. -/
theorem length_le_height {n : Node} {ns : List Node}
    (h : List.IsChain (fun a b => b.Below a) (n :: ns)) :
    ns.length ≤ n.height := by
  induction ns generalizing n with
  | nil => exact Nat.zero_le _
  | cons m ns ih =>
    obtain ⟨hm, hns⟩ := List.isChain_cons_cons.mp h
    have hlevel := hm.height_lt
    have hrest := ih hns
    rw [List.length_cons]
    omega

end Node

theorem Cursor.sitesAmong_depth_le_iff {p : Node} {frames : List Frame} {ns : List Node}
    (h : ∀ n ∈ ns, ∀ frames k, (∀ d ∈ sitesUnder frames n, d.depth ≤ frames.length + k) ↔
      n.height ≤ k)
    (k : Nat) : (∀ d ∈ sitesAmong p frames ns, d.depth ≤ frames.length + k) ↔
    Node.heightAll ns ≤ k := by
  induction ns with
  | nil => simp [sitesAmong, Node.heightAll]
  | cons n ns ih =>
    rw [sitesAmong, List.forall_mem_append, ih fun m hm => h m (by simp [hm]), Node.heightAll,
      Nat.max_le]
    refine and_congr_left' ?_
    cases k with
    | zero =>
      refine ⟨fun hall => ?_, fun hle => absurd hle (Nat.not_succ_le_zero _)⟩
      have hown := hall ⟨n, ⟨p, ns⟩ :: frames⟩ (by simp [sitesUnder_eq])
      exact absurd hown (Nat.not_succ_le_self _)
    | succ k =>
      rw [Nat.add_le_add_iff_right, ← h n (by simp) (⟨p, ns⟩ :: frames) k, List.length_cons]
      simp only [Nat.add_assoc, Nat.add_comm 1 k]

/-- The deepest place below a node is as many levels below it as it is high. -/
theorem Cursor.depth_le_iff (n : Node) : ∀ frames k,
    (∀ d ∈ sitesUnder frames n, d.depth ≤ frames.length + k) ↔ n.height ≤ k := by
  induction n using Node.induction with
  | node l cs ih =>
    intro frames k
    rw [sitesUnder, List.forall_mem_cons, sitesAmong_depth_le_iff ih, Node.height]
    simp [depth]

theorem Tour.recordAt_toDepth (level : Nat) : Tour.toDepth.recordAt level = level := by
  induction level with
  | zero => rfl
  | succ level ih => exact congrArg (· + 1) ih

theorem Tour.wants_toDepth : Tour.toDepth.wants = fun c => decide (maxDepth < c.depth) := by
  funext c
  rw [wants, recordAt_toDepth]
  rfl

theorem Tour.toDepth_thorough (root : Node) : Tour.toDepth.Thorough root := by
  intro _ _ _ henters
  cases henters

theorem Node.firstTooDeep_eq (root : Node) :
    root.firstTooDeep = ((sites root).find? fun c => maxDepth < c.depth).map Cursor.tooDeep := by
  rw [firstTooDeep, Tour.result_eq (Tour.toDepth_thorough root), Tour.wants_toDepth]
  cases (sites root).find? fun c => decide (maxDepth < c.depth) <;> rfl

theorem Node.firstTooDeep_eq_none_iff (root : Node) :
    root.firstTooDeep = none ↔ ∀ c ∈ sites root, c.depth ≤ maxDepth := by
  rw [firstTooDeep_eq, Option.map_eq_none_iff, List.find?_eq_none]
  simp

theorem Tree.height_of_parse {source : String} {t : Tree} (h : parse source = .ok t) :
    t.root.height ≤ maxDepth := by
  obtain ⟨rfl, -, hdeep⟩ := parse_eq_ok_iff.mp h
  rw [Node.firstTooDeep_eq_none_iff, sites_eq] at hdeep
  refine (Cursor.depth_le_iff _ [] maxDepth).mp ?_
  simpa using hdeep

/-- Before every step of the search the count is the number of levels above the cursor, and there is
no step at which it would drop below zero. The search ends, at the first place of the whole tree
that lies deeper than the limit, if there is one. So no node of an accepted tree lies deeper, and a
recursion that starts at one of its nodes, and with each further call goes down to a node below, is
never in more calls at a time than the tree has levels. -/
theorem nesting_limit :
    (∀ root : Node,
      (∀ n level c, Tour.toDepth.after n (Tour.toDepth.outset root) = .arriving level c ∨
        Tour.toDepth.after n (Tour.toDepth.outset root) = .leaving level c → level = c.depth) ∧
      (∀ n, Tour.toDepth.after n (Tour.toDepth.outset root) ≠ .astray) ∧
      (Tour.toDepth.result root).isOver = true ∧
      (root.firstTooDeep = none ↔ ∀ c ∈ sites root, c.depth ≤ maxDepth) ∧
      root.firstTooDeep = ((sites root).find? fun c => maxDepth < c.depth).map Cursor.tooDeep) ∧
    ∀ source t, Tree.parse source = .ok t → t.root.height ≤ 1000 ∧
      ∀ n ∈ t.root.preorder, ∀ calls, List.IsChain (fun a b => b.Below a) (n :: calls) →
        (n :: calls).length ≤ 1000 + 1 := by
  constructor
  · intro root
    have hkept := Tour.toDepth.kept_after root
    refine ⟨?_, ?_, Tour.toDepth.isOver_result root, root.firstTooDeep_eq_none_iff,
      root.firstTooDeep_eq⟩
    · rintro n level c (hstate | hstate)
      all_goals
        have hlevel := hkept n
        rw [hstate, Tour.State.Kept, Tour.recordAt_toDepth] at hlevel
        exact hlevel
    · intro n hastray
      have hnone := hkept n
      rw [hastray] at hnone
      exact hnone
  · intro source t h
    have hheight : t.root.height ≤ 1000 := Tree.height_of_parse h
    refine ⟨hheight, ?_⟩
    intro n hn calls hcalls
    have hbelow := Node.length_le_height hcalls
    have hwithin := Node.height_le_of_mem_preorder hn
    rw [List.length_cons]
    omega

theorem nesting_limit_parenthesized :
    let source := "x = ((1))\n"
    ∃ t, Tree.parse source = .ok t ∧ t.root.height ≤ 1000 ∧
      ∃ c ∈ t.root.children, ∃ d ∈ c.children, [t.root, c, d].length ≤ 1000 + 1 := by
  intro source
  obtain ⟨t, ht⟩ := (Tree.validates_iff source).mp (by decide +kernel)
  obtain ⟨hheight, hcalls⟩ := nesting_limit.2 source t ht
  have hlevels : (Tree.rootOf source.toList).children.any (fun c => c.children.any fun _ => true) =
      true := by
    decide +kernel
  rw [← show t.root = Tree.rootOf source.toList from congrArg Tree.root
    (Tree.eq_of_parse ht)] at hlevels
  obtain ⟨c, hc, hbelow⟩ := List.any_eq_true.mp hlevels
  obtain ⟨d, hd, -⟩ := List.any_eq_true.mp hbelow
  refine ⟨t, ht, hheight, c, hc, d, hd, hcalls t.root t.root.self_mem_preorder [c, d] ?_⟩
  simpa using ⟨⟨c, hc, c.self_mem_preorder⟩, ⟨d, hd, d.self_mem_preorder⟩⟩

-- A node may lie on level 1000, but not on level 1001.
example :
    let onLevel (k : Nat) : Label := { kind := .token "x", start := ⟨k, 0, k⟩, stop := ⟨k, 0, k⟩ }
    let tower (k : Nat) : Node := (List.range k).foldr (fun j n => .mk (onLevel j) [n])
      (.mk (onLevel k) [])
    (tower 1000).firstTooDeep = none ∧ (tower 1001).firstTooDeep = some (.tooDeep 1 1002) := by
  decide +kernel

end Levels

end SafeRefactor.Syntax
