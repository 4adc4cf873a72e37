import Mathlib.Data.List.Nodup
import SafeRefactor.Proofs.Traversal

/-!
# What surrounds a place

The frames of a place say what it stands in: the scope whose names it shares, and the loop whose
body repeats it. Both are read off the way from the place up to the root. A place together with all
that comes before it in the text is what a search through the tree knows when it gets there.
-/

set_option autoImplicit false

namespace SafeRefactor.Syntax

/-- Whether a node is a statement that repeats its body. -/
def Node.isLoop (n : Node) : Bool := n.has .forStatement || n.has .whileStatement

namespace Cursor

/-- Which child to take at each level to get to a place, counted from the last child, innermost
first. -/
def address (frames : List Frame) : List Nat := frames.map fun f => f.following.length

/-- Whether the node inside some frames stands for itself. The top node does not, nor does a part of
a loop: what lies below a part is in the loop or beside it, but the part is no statement. -/
def stands : List Frame → Bool
  | [] => false
  | f :: fs => !(stands fs && f.parent.isLoop)

/-- The address of the scope around a place: of the innermost function, class or lambda around it,
or of the top of the tree. -/
def scope : List Frame → List Nat
  | [] => []
  | f :: fs => if stands fs && f.parent.opensScope then address fs else scope fs

/-- The innermost loop that has a place in its body, with no function, class or lambda between. -/
def loop? : Node → List Frame → Option Node
  | _, [] => none
  | n, f :: fs =>
    if stands fs && f.parent.opensScope then none
    else if stands fs && f.parent.isLoop && n.role = some .body then some f.parent
    else loop? f.parent fs

/-- Whether a place belongs to the scope with a given address. -/
def belongs (s : List Nat) (c : Cursor) : Bool := stands c.frames && scope c.frames == s

theorem scope_suffix (f : Frame) (fs : List Frame) : scope (f :: fs) <:+ address fs := by
  induction fs generalizing f with
  | nil => cases h : stands [] && f.parent.opensScope <;> simp [scope, h, address]
  | cons g gs ih =>
    rw [scope]
    split
    · exact List.suffix_rfl
    · exact (ih g).trans (List.suffix_cons _ _)

theorem scope_suffix_address (frames : List Frame) : scope frames <:+ address frames := by
  cases frames with
  | nil => exact List.suffix_rfl
  | cons f fs => exact (scope_suffix f fs).trans (List.suffix_cons _ _)

/-- What holds of a place and goes over to the places of its children holds of all places below it.
-/
theorem forall_sitesUnder {motive : Cursor → Prop}
    (child : ∀ c, motive c → ∀ n ∈ c.node.children, ∀ following,
      motive ⟨n, ⟨c.node, following⟩ :: c.frames⟩)
    {n : Node} {frames : List Frame} (h : motive ⟨n, frames⟩) : ∀ d ∈ sitesUnder frames n,
    motive d := by
  induction n using Node.induction generalizing frames with
  | node l cs ih =>
    have hall (ns : List Node) (hns : ∀ n ∈ ns, n ∈ cs) :
        ∀ d ∈ sitesAmong (.mk l cs) frames ns, motive d := by
      induction ns with
      | nil => simp [sitesAmong]
      | cons n ns ihns =>
        intro d hd
        have hn := hns n (by simp)
        rw [sitesAmong, List.mem_append] at hd
        rcases hd with hd | hd
        · exact ih n hn (child _ h n hn ns) d hd
        · exact ihns (fun m hm => hns m (by simp [hm])) d hd
    intro d hd
    rw [sitesUnder, List.mem_cons] at hd
    rcases hd with rfl | hd
    · exact h
    · exact hall cs (fun n hn => hn) d hd

theorem address_suffix (n : Node) (frames : List Frame) :
    ∀ d ∈ sitesUnder frames n, address frames <:+ address d.frames :=
  forall_sitesUnder (fun _ h _ _ _ => h.trans (List.suffix_cons _ _)) List.suffix_rfl

/-- A place at or below some of the children of a node is reached through one of them. -/
theorem address_among {n : Node} {frames : List Frame} {ns : List Node} {d : Cursor}
    (h : d ∈ sitesAmong n frames ns) : ∃ k < ns.length,
    (k :: address frames) <:+ address d.frames := by
  induction ns with
  | nil => cases h
  | cons m ns ih =>
    rw [sitesAmong, List.mem_append] at h
    rcases h with h | h
    · exact ⟨ns.length, by simp, address_suffix m _ d h⟩
    · obtain ⟨k, hk, hsuffix⟩ := ih h
      exact ⟨k, by simp; omega, hsuffix⟩

theorem sitesAmong_nodup {n : Node} {frames : List Frame} {ns : List Node}
    (h : ∀ c ∈ ns, ∀ frames, (sitesUnder frames c).Nodup) : (sitesAmong n frames ns).Nodup := by
  induction ns with
  | nil => exact List.nodup_nil
  | cons c ns ih =>
    rw [sitesAmong]
    refine List.Nodup.append (h c (by simp) _) (ih fun m hm => h m (by simp [hm])) ?_
    intro d hd hd'
    obtain ⟨k, hk, hsuffix⟩ := address_among hd'
    have hown := address_suffix c _ d hd
    have hlevel := List.suffix_of_suffix_length_le hsuffix hown (by simp [address])
    have heq := hlevel.eq_of_length (by simp [address])
    simp only [address, List.map_cons, List.cons.injEq] at heq
    omega

theorem sitesUnder_nodup (n : Node) : ∀ frames, (sitesUnder frames n).Nodup := by
  induction n using Node.induction with
  | node l cs ih =>
    intro frames
    rw [sitesUnder_eq, List.nodup_cons]
    refine ⟨?_, sitesAmong_nodup ih⟩
    intro h
    obtain ⟨k, _, hsuffix⟩ := address_among h
    have := hsuffix.length_le
    rw [List.length_cons] at this
    exact absurd this (Nat.not_succ_le_self _)

theorem scope_suffix_scope (n : Node) (frames : List Frame) :
    ∀ d ∈ sitesUnder frames n, scope frames <:+ scope d.frames := by
  refine forall_sitesUnder (fun c h m _ following => h.trans ?_) List.suffix_rfl
  rw [scope]
  split
  · exact scope_suffix_address _
  · exact List.suffix_rfl

/-- The places below a function, class or lambda do not belong to the scope around it. -/
theorem not_belongs_of_opensScope {n : Node} {f : Frame} {fs : List Frame}
    (h : (stands (f :: fs) && n.opensScope) = true) (ns : List Node) :
    ∀ d ∈ sitesAmong n (f :: fs) ns, belongs (scope (f :: fs)) d = false := by
  induction ns with
  | nil => simp [sitesAmong]
  | cons m ns ih =>
    intro d hd
    rw [sitesAmong, List.mem_append] at hd
    rcases hd with hd | hd
    · have hscope : scope (⟨n, ns⟩ :: f :: fs) = address (f :: fs) := by rw [scope, if_pos h]
      have hown := (scope_suffix_scope m _ d hd).length_le
      have houter := (scope_suffix f fs).length_le
      rw [hscope] at hown
      have hne : scope d.frames ≠ scope (f :: fs) := by
        intro heq
        rw [heq] at hown
        simp [address] at hown houter
        omega
      simp [belongs, hne]
    · exact ih d hd

theorem mem_preorder_of_mem_sites {root : Node} {c : Cursor} (h : c ∈ sites root) :
    c.node ∈ root.preorder ∧ ∀ f ∈ c.frames, f.parent ∈ root.preorder := by
  rw [sites_eq] at h
  refine forall_sitesUnder
    (motive := fun c => c.node ∈ root.preorder ∧ ∀ f ∈ c.frames, f.parent ∈ root.preorder)
    ?_ ⟨root.self_mem_preorder, by simp⟩ c h
  rintro c ⟨hnode, hframes⟩ n hn following
  refine ⟨Node.child_mem_preorder hnode hn, ?_⟩
  rintro f (_ | ⟨_, hf⟩)
  · exact hnode
  · exact hframes f hf

theorem child_of_mem_sites {root : Node} {c : Cursor} (h : c ∈ sites root) :
    ∀ f ∈ c.frames.head?, c.node ∈ f.parent.children := by
  rw [sites_eq] at h
  refine forall_sitesUnder (motive := fun c => ∀ f ∈ c.frames.head?, c.node ∈ f.parent.children)
    ?_ (by simp) c h
  intro c _ n hn following f hf
  obtain rfl : ⟨c.node, following⟩ = f := by simpa using hf
  exact hn

theorem loop?_eq_some {n lp : Node} {frames : List Frame} (h : loop? n frames = some lp) :
    ∃ f ∈ frames, f.parent = lp := by
  induction frames generalizing n with
  | nil => cases h
  | cons f fs ih =>
    rw [loop?] at h
    split at h
    · cases h
    · split at h
      · exact ⟨f, by simp, Option.some.inj h⟩
      · obtain ⟨g, hg, heq⟩ := ih h
        exact ⟨g, List.mem_cons_of_mem _ hg, heq⟩

end Cursor

/-- A place of a tree and the places before it in document order. -/
structure Place where
  before : List Cursor
  here : Cursor

namespace Place

/-- The places of a list, each with those before it. -/
def listFrom (before : List Cursor) : List Cursor → List Place
  | [] => []
  | c :: cs => ⟨before, c⟩ :: listFrom (before ++ [c]) cs

theorem listFrom_append (before cs ds : List Cursor) :
    listFrom before (cs ++ ds) = listFrom before cs ++ listFrom (before ++ cs) ds := by
  induction cs generalizing before with
  | nil => simp [listFrom]
  | cons c cs ih => simp [listFrom, ih]

theorem listFrom_here (before cs : List Cursor) : (listFrom before cs).map here = cs := by
  induction cs generalizing before with
  | nil => rfl
  | cons c cs ih => simp [listFrom, ih]

theorem length_le_before {before cs : List Cursor} {p : Place} (h : p ∈ listFrom before cs) :
    before.length ≤ p.before.length := by
  induction cs generalizing before with
  | nil => cases h
  | cons c cs ih =>
    rcases List.mem_cons.mp h with rfl | h
    · exact Nat.le_refl _
    · have := ih h
      rw [List.length_append, List.length_singleton] at this
      omega

theorem listFrom_nodup (before cs : List Cursor) : (listFrom before cs).Nodup := by
  induction cs generalizing before with
  | nil => exact List.nodup_nil
  | cons c cs ih =>
    refine List.nodup_cons.mpr ⟨?_, ih _⟩
    intro h
    have := length_le_before h
    rw [List.length_append, List.length_singleton] at this
    exact absurd this (Nat.not_succ_le_self _)

end Place

namespace Tree

/-- The places of a tree in document order, each with those before it. -/
def places (t : Tree) : List Place := Place.listFrom [] t.sites

theorem places_nodes (t : Tree) : t.places.map (·.here.node) = t.root.preorder := by
  rw [← t.nodes_eq_preorder, nodes, ← Place.listFrom_here [] t.sites, List.map_map]
  rfl

theorem places_nodup (t : Tree) : t.places.Nodup := Place.listFrom_nodup [] t.sites

theorem sites_nodup (t : Tree) : t.sites.Nodup := by
  rw [sites, Cursor.sites_eq]
  exact Cursor.sitesUnder_nodup t.root []

theorem mem_sites_of_mem_places {t : Tree} {p : Place} (h : p ∈ t.places) : p.here ∈ t.sites := by
  rw [← Place.listFrom_here [] t.sites]
  exact List.mem_map_of_mem h

end Tree

end SafeRefactor.Syntax
