import SafeRefactor.Detect.StringConcat
import SafeRefactor.Proofs.Surroundings

/-!
# Which names hold strings

The visitor for strings built in loops carries along the names that hold strings and the innermost
loop. At every place these are what the way up to the root and the assignments before the place in
its scope say. So its issues are those of the places where an assignment accumulates, in document
order.
-/

set_option autoImplicit false

namespace SafeRefactor.Detect.StringConcat

open Syntax Cursor

/-- The plain assignment to a single name that a node is: the name, and what is assigned to it. -/
def binding? (t : Tree) (n : Node) : Option (String × Node) :=
  if n.has .assignment then
    match n.child? .left, n.child? .right with
    | some left, some right => if left.has .identifier then some (t.text left, right) else none
    | _, _ => none
  else none

/-- The names that hold strings after one more assignment: a string-like value adds the name, and
any other value that is no arithmetic expression takes it away. -/
def bind (t : Tree) (strings : List String) (b : String × Node) : List String :=
  if isStringLike t b.2 then b.1 :: strings
  else if b.2.has .binaryOperator then strings
  else strings.filter (· ≠ b.1)

/-- The names that hold strings after some assignments. -/
def tracked (t : Tree) (bs : List (String × Node)) : List String := bs.foldl (bind t) []

/-- The plain assignments among some places that belong to a scope. -/
def bindingsIn (t : Tree) (s : List Nat) (cs : List Cursor) : List (String × Node) :=
  (cs.filter (belongs s)).filterMap fun c => binding? t c.node

/-- The plain assignments before a place in its scope, in document order. -/
def bindingsBefore (t : Tree) (p : Place) : List (String × Node) :=
  bindingsIn t (scope p.here.frames) p.before

/-- The accumulation at a place, and the loop that repeats it. -/
def found? (t : Tree) (p : Place) : Option (Node × Accumulation) :=
  match p.here.frames with
  | [] => none
  | f :: _ =>
    if stands p.here.frames &&
      (p.here.node.has .assignment || p.here.node.has .augmentedAssignment) then
      (loop? p.here.node p.here.frames).bind fun lp =>
        (accumulation? t (tracked t (bindingsBefore t p)) lp f.parent p.here.node).map fun a =>
          (lp, a)
    else none

variable {t : Tree} {taken : List String} {s : List Nat} {done : List Cursor}

theorem found?_cons (n : Node) (f : Frame) (fs : List Frame) : found? t ⟨done, ⟨n, f :: fs⟩⟩ =
    if stands (f :: fs) && (n.has .assignment || n.has .augmentedAssignment) then
      (loop? n (f :: fs)).bind fun lp =>
        (accumulation? t (tracked t (bindingsIn t (scope (f :: fs)) done)) lp f.parent n).map
          fun a => (lp, a)
    else none := rfl

theorem track_eq (n : Node) (strings : List String) : track t n strings =
    match binding? t n with
    | some b => bind t strings b
    | none => strings := by
  unfold track binding?
  cases n.has .assignment with
  | false => rfl
  | true =>
    cases n.child? .left with
    | none => rfl
    | some left =>
      cases n.child? .right with
      | none => rfl
      | some right => cases hl : left.has .identifier <;> simp [hl, bind]

theorem bindingsIn_append (cs ds : List Cursor) :
    bindingsIn t s (cs ++ ds) = bindingsIn t s cs ++ bindingsIn t s ds := by
  simp [bindingsIn]

theorem bindingsIn_eq_nil {cs : List Cursor} (h : ∀ c ∈ cs, belongs s c = false) :
    bindingsIn t s cs = [] := by
  rw [bindingsIn, List.filter_eq_nil_iff.mpr (by simpa using h), List.filterMap_nil]

theorem bindingsIn_single_of_none {c : Cursor} (h : binding? t c.node = none) :
    bindingsIn t s [c] = [] := by
  cases hb : belongs s c <;> simp [bindingsIn, hb, h]

theorem track_tracked {n : Node} {frames : List Frame} (h : stands frames = true) :
    track t n (tracked t (bindingsIn t (scope frames) done)) =
      tracked t (bindingsIn t (scope frames) (done ++ [⟨n, frames⟩])) := by
  have hbelongs : belongs (scope frames) ⟨n, frames⟩ = true := by simp [belongs, h]
  rw [track_eq, bindingsIn_append]
  cases hb : binding? t n <;> simp [bindingsIn, hbelongs, hb, tracked]

/-- A node that assigns nothing. -/
def Plain (n : Node) : Prop := (n.has .assignment || n.has .augmentedAssignment) = false

theorem Plain.binding? {n : Node} (h : Plain n) : binding? t n = none := by
  have hn : n.has .assignment = false := (Bool.or_eq_false_iff.mp h).1
  simp [StringConcat.binding?, hn]

theorem Plain.found? {c : Node} {frames : List Frame} (h : Plain c) :
    found? t ⟨done, ⟨c, frames⟩⟩ = none := by
  cases frames with
  | nil => rfl
  | cons f fs =>
    rw [found?_cons, show (c.has .assignment || c.has .augmentedAssignment) = false from h]
    simp

theorem plain_of_isLoop {n : Node} (h : n.isLoop = true) : Plain n := by
  unfold Node.isLoop Node.has at h
  unfold Plain Node.has
  simp only [Bool.or_eq_true, decide_eq_true_eq] at h
  rcases h with h | h <;> simp [h]

theorem plain_of_opensScope {n : Node} (h : n.opensScope = true) : Plain n ∧ n.isLoop = false := by
  unfold Node.opensScope at h
  unfold Plain Node.isLoop Node.has
  cases hk : n.kind with
  | named f => cases f <;> simp_all [Form.opensScope]
  | token s => simp
  | error => simp

/-- What a visit of some places has to give: the names that hold strings after them, and the issues
of the accumulations at them. `done` are the places before, and `s` is the scope that is visited. -/
structure Sees (t : Tree) (taken : List String) (s : List Nat) (done sites : List Cursor)
    (r : List String × List Issue) : Prop where
  strings : r.1 = tracked t (bindingsIn t s (done ++ sites))
  issues : r.2 = ((Place.listFrom done sites).filterMap (found? t)).map fun f =>
    issue t taken f.1 f.2

namespace Sees

variable {cs ds : List Cursor} {q r : List String × List Issue}

theorem nil {strings : List String} (h : strings = tracked t (bindingsIn t s done)) :
    Sees t taken s done [] (strings, []) where
  strings := by simpa using h
  issues := rfl

theorem append (hq : Sees t taken s done cs q) (hr : Sees t taken s (done ++ cs) ds r) :
    Sees t taken s done (cs ++ ds) (r.1, q.2 ++ r.2) where
  strings := by rw [hr.strings, List.append_assoc]
  issues := by simp [Place.listFrom_append, hq.issues, hr.issues]

theorem one (c : Cursor) :
    Sees t taken s done [c] (tracked t (bindingsIn t s (done ++ [c])),
      ((found? t ⟨done, c⟩).map fun f => issue t taken f.1 f.2).toList) where
  strings := rfl
  issues := by cases h : found? t ⟨done, c⟩ <;> simp [Place.listFrom, h]

theorem node {c : Node} {frames : List Frame} {below : List String × List Issue}
    (hfound : found? t ⟨done, ⟨c, frames⟩⟩ = none)
    (hbelow : Sees t taken s (done ++ [⟨c, frames⟩]) (sitesAmong c frames c.children) below) :
    Sees t taken s done (sitesUnder frames c) below := by
  rw [sitesUnder_eq, ← List.singleton_append]
  simpa [hfound] using (one ⟨c, frames⟩).append hbelow

end Sees

/-- None of some places lies at or below one of the last `k` children of the node inside some
frames. -/
def Fresh (done : List Cursor) (k : Nat) (frames : List Frame) : Prop :=
  ∀ d ∈ done, ∀ i < k, ¬ (i :: address frames) <:+ address d.frames

namespace Fresh

variable {parent : Node} {following : List Node} {fs : List Frame}

theorem not_suffix (h : Fresh done (following.length + 1) fs) :
    ∀ d ∈ done, ¬ address (⟨parent, following⟩ :: fs) <:+ address d.frames :=
  fun d hd => h d hd following.length (Nat.lt_succ_self _)

theorem child (h : Fresh done (following.length + 1) fs) (parent n : Node) (k : Nat) :
    Fresh (done ++ [⟨n, ⟨parent, following⟩ :: fs⟩]) k (⟨parent, following⟩ :: fs) := by
  intro d hd i _ hsuffix
  rcases List.mem_append.mp hd with hd | hd
  · exact h.not_suffix d hd ((List.suffix_cons _ _).trans hsuffix)
  · rw [List.mem_singleton] at hd
    subst hd
    have hlength := hsuffix.length_le
    simp only [List.length_cons] at hlength
    omega

theorem next (h : Fresh done (following.length + 1) fs) (n : Node) :
    Fresh (done ++ sitesUnder (⟨parent, following⟩ :: fs) n) following.length fs := by
  intro d hd i hi hsuffix
  rcases List.mem_append.mp hd with hd | hd
  · exact h d hd i (Nat.lt_succ_of_lt hi) hsuffix
  · have hown := address_suffix n _ d hd
    have heq : i :: address fs = address (⟨parent, following⟩ :: fs) :=
      List.IsSuffix.eq_of_length (List.suffix_of_suffix_length_le hsuffix hown (by simp [address]))
        (by simp [address])
    have hindex : i = following.length := by simpa [address] using heq
    omega

end Fresh

theorem bindingsIn_opened {f : Frame} {fs : List Frame}
    (h : Fresh done (f.following.length + 1) fs) :
    bindingsIn t (address (f :: fs)) done = [] := by
  apply bindingsIn_eq_nil
  intro d hd
  have hne : scope d.frames ≠ address (f :: fs) := by
    intro heq
    have hsuffix := heq ▸ scope_suffix_address d.frames
    exact h.not_suffix d hd hsuffix
  simp [belongs, hne]

/-- The scope of what lies below a node. -/
def innerScope (n : Node) (fs : List Frame) : List Nat :=
  if stands fs && n.opensScope then address fs else scope fs

/-- The innermost loop around what lies below a node, the body of a loop left out. -/
def innerLoop (n : Node) (fs : List Frame) : Option Node :=
  if stands fs && n.opensScope then none else loop? n fs

/-- A visit below a node that is no loop sees all places below it. -/
def VisitSees (t : Tree) (taken : List String) (n : Node) : Prop :=
  ∀ fs done, (stands fs && n.isLoop) = false → Fresh done n.children.length fs →
    Sees t taken (innerScope n fs) done (sitesAmong n fs n.children)
      (visit t taken n (innerLoop n fs) n.children
        (tracked t (bindingsIn t (innerScope n fs) done)))

def visitOne (t : Tree) (taken : List String) (parent : Node) (loop : Option Node) (n : Node)
    (strings : List String) : List String × List Issue :=
  if n.opensScope then (strings, (visit t taken n none n.children []).2)
  else if n.isLoop then visitParts t taken n loop n.children strings
  else if n.has .assignment || n.has .augmentedAssignment then
    let below := visit t taken n loop n.children (track t n strings)
    (below.1, (match loop with
      | some lp => ((accumulation? t strings lp parent n).map (issue t taken lp)).toList
      | none => []) ++ below.2)
  else visit t taken n loop n.children strings

theorem visit_cons (parent : Node) (loop : Option Node) (n : Node) (rest : List Node)
    (strings : List String) :
    visit t taken parent loop (n :: rest) strings =
      let here := visitOne t taken parent loop n strings
      let later := visit t taken parent loop rest here.1
      (later.1, here.2 ++ later.2) := by
  cases n with
  | mk l cs => rfl

theorem visitParts_cons (lp : Node) (outer : Option Node) (p : Node) (ps : List Node)
    (strings : List String) :
    visitParts t taken lp outer (p :: ps) strings =
      let below := visit t taken p (if p.role = some .body then some lp else outer)
        p.children strings
      let later := visitParts t taken lp outer ps below.1
      (later.1, below.2 ++ later.2) := by
  cases p with
  | mk l cs => rfl

/-- The parts of a loop, of which only the body is in the loop. -/
theorem visitParts_sees {lp : Node} {fs : List Frame} (hstands : stands fs = true)
    (hloop : lp.isLoop = true) (hscope : lp.opensScope = false) {ps : List Node}
    (hps : ∀ p ∈ ps, VisitSees t taken p) (h : Fresh done ps.length fs) :
    Sees t taken (scope fs) done (sitesAmong lp fs ps)
      (visitParts t taken lp (loop? lp fs) ps (tracked t (bindingsIn t (scope fs) done))) := by
  induction ps generalizing done with
  | nil => exact .nil rfl
  | cons p ps ih =>
    have hpart : stands (⟨lp, ps⟩ :: fs) = false := by simp [stands, hstands, hloop]
    have hs : innerScope p (⟨lp, ps⟩ :: fs) = scope fs := by simp [innerScope, hpart, scope, hscope]
    have hl : innerLoop p (⟨lp, ps⟩ :: fs) = if p.role = some .body then some lp
        else loop? lp fs := by
      simp [innerLoop, hpart, Cursor.loop?, hscope, hstands, hloop]
    have hfound : found? t ⟨done, ⟨p, ⟨lp, ps⟩ :: fs⟩⟩ = none := by simp [found?, hpart]
    have hbinding : bindingsIn t (scope fs) [⟨p, ⟨lp, ps⟩ :: fs⟩] = [] :=
      bindingsIn_eq_nil (by simp [belongs, hpart])
    have hhere : Sees t taken (scope fs) done (sitesUnder (⟨lp, ps⟩ :: fs) p)
        (visit t taken p (if p.role = some .body then some lp else loop? lp fs) p.children
          (tracked t (bindingsIn t (scope fs) done))) := by
      have hsees := hps p (by simp) _ _ (by simp [hpart]) (h.child lp p _)
      rw [hs, hl, bindingsIn_append, hbinding, List.append_nil] at hsees
      exact .node hfound hsees
    rw [sitesAmong, visitParts_cons]
    refine hhere.append ?_
    rw [hhere.strings]
    exact ih (fun q hq => hps q (by simp [hq])) (h.next p)

section

variable {f : Frame} {fs : List Frame} {c : Node}

theorem sees_below (hscope : c.opensScope = false) (hloop : c.isLoop = false)
    (hc : VisitSees t taken c) (h : Fresh done (f.following.length + 1) fs) :
    Sees t taken (scope (f :: fs)) (done ++ [⟨c, f :: fs⟩]) (sitesAmong c (f :: fs) c.children)
      (visit t taken c (loop? c (f :: fs)) c.children
        (tracked t (bindingsIn t (scope (f :: fs)) (done ++ [⟨c, f :: fs⟩])))) := by
  have hsees := hc (f :: fs) (done ++ [⟨c, f :: fs⟩]) (by simp [hloop]) (h.child f.parent c _)
  rwa [innerScope, innerLoop, hscope, Bool.and_false, if_neg Bool.false_ne_true,
    if_neg Bool.false_ne_true]
    at hsees

theorem sees_of_opensScope (hstands : stands (f :: fs) = true) (hopens : c.opensScope = true)
    (hc : VisitSees t taken c) (h : Fresh done (f.following.length + 1) fs) :
    Sees t taken (scope (f :: fs)) done (sitesUnder (f :: fs) c)
      (tracked t (bindingsIn t (scope (f :: fs)) done),
        (visit t taken c none c.children []).2) := by
  obtain ⟨hplain, hloop⟩ := plain_of_opensScope hopens
  have hopened : (stands (f :: fs) && c.opensScope) = true := by simp [hstands, hopens]
  have hsees := hc (f :: fs) (done ++ [⟨c, f :: fs⟩]) (by simp [hloop]) (h.child f.parent c _)
  rw [innerScope, innerLoop, if_pos hopened, if_pos hopened, bindingsIn_append, bindingsIn_opened h,
    bindingsIn_single_of_none hplain.binding?] at hsees
  -- the issues are those found inside, but what is assigned inside is assigned in another scope
  refine Sees.node hplain.found? ⟨?_, hsees.issues⟩
  rw [bindingsIn_append, bindingsIn_append, bindingsIn_single_of_none hplain.binding?,
    bindingsIn_eq_nil (not_belongs_of_opensScope hopened _), List.append_nil, List.append_nil]

theorem sees_of_assignment (hstands : stands (f :: fs) = true)
    (hassigns : (c.has .assignment || c.has .augmentedAssignment) = true)
    {below : List String × List Issue}
    (hbelow : Sees t taken (scope (f :: fs)) (done ++ [⟨c, f :: fs⟩])
      (sitesAmong c (f :: fs) c.children)
      below) :
    Sees t taken (scope (f :: fs)) done (sitesUnder (f :: fs) c) (below.1,
      (match loop? c (f :: fs) with
        | some lp =>
          ((accumulation? t (tracked t (bindingsIn t (scope (f :: fs)) done)) lp f.parent c).map
            (issue t taken lp)).toList
        | none => []) ++ below.2) := by
  have hnode := (Sees.one ⟨c, f :: fs⟩).append hbelow
  rw [found?_cons, hstands, hassigns, List.singleton_append] at hnode
  rw [sitesUnder_eq]
  cases hlp : loop? c (f :: fs) with
  | none => simpa [hlp] using hnode
  | some lp => simpa [hlp, Function.comp_def] using hnode

end

/-- One node in the walk: what it is decides with which names and which loop the nodes below it are
seen. -/
theorem visitOne_sees {n : Node} {fs : List Frame} (hn : (stands fs && n.isLoop) = false) {c : Node}
    {ns : List Node} (hc : VisitSees t taken c) (hcs : ∀ d ∈ c.children, VisitSees t taken d)
    (h : Fresh done (ns.length + 1) fs) :
    Sees t taken (innerScope n fs) done (sitesUnder (⟨n, ns⟩ :: fs) c)
      (visitOne t taken n (innerLoop n fs) c
        (tracked t (bindingsIn t (innerScope n fs) done))) := by
  have hstands : stands (⟨n, ns⟩ :: fs) = true := by simp [stands, hn]
  have hs : scope (⟨n, ns⟩ :: fs) = innerScope n fs := rfl
  have hl : loop? c (⟨n, ns⟩ :: fs) = innerLoop n fs := by simp [Cursor.loop?, innerLoop, hn]
  rw [← hs, ← hl]
  unfold visitOne
  -- the cases are those of the visitor: a scope, a loop, an assignment, or none of these
  by_cases hopens : c.opensScope = true
  · rw [if_pos hopens]
    exact sees_of_opensScope hstands hopens hc h
  rw [if_neg hopens]
  rw [Bool.not_eq_true] at hopens
  by_cases hloop : c.isLoop = true
  · have hplain := plain_of_isLoop hloop
    have hsees := visitParts_sees hstands hloop hopens hcs (h.child n c _)
    rw [bindingsIn_append, bindingsIn_single_of_none hplain.binding?, List.append_nil] at hsees
    rw [if_pos hloop]
    exact .node hplain.found? hsees
  rw [if_neg hloop]
  rw [Bool.not_eq_true] at hloop
  have hsees := sees_below (f := ⟨n, ns⟩) hopens hloop hc h
  by_cases hassigns : (c.has .assignment || c.has .augmentedAssignment) = true
  · rw [if_pos hassigns, track_tracked hstands]
    exact sees_of_assignment hstands hassigns hsees
  · rw [if_neg hassigns]
    have hplain : Plain c := by simpa [Plain] using hassigns
    rw [bindingsIn_append, bindingsIn_single_of_none hplain.binding?, List.append_nil] at hsees
    exact .node hplain.found? hsees

theorem visit_sees_list {n : Node} {fs : List Frame} (hn : (stands fs && n.isLoop) = false)
    {ns : List Node} (hns : ∀ c ∈ ns, VisitSees t taken c ∧ ∀ d ∈ c.children, VisitSees t taken d)
    (h : Fresh done ns.length fs) :
    Sees t taken (innerScope n fs) done (sitesAmong n fs ns)
      (visit t taken n (innerLoop n fs) ns (tracked t (bindingsIn t (innerScope n fs) done))) := by
  induction ns generalizing done with
  | nil => exact .nil rfl
  | cons c ns ih =>
    obtain ⟨hc, hcs⟩ := hns c (by simp)
    -- the names known after one node are those that the next one starts from
    have hhere := visitOne_sees hn hc hcs h
    rw [visit_cons, sitesAmong]
    refine hhere.append ?_
    rw [hhere.strings]
    exact ih (fun d hd => hns d (by simp [hd])) (h.next c)

theorem visit_sees (n : Node) : VisitSees t taken n ∧ ∀ c ∈ n.children, VisitSees t taken c := by
  induction n using Node.induction with
  | node l cs ih =>
    refine ⟨?_, fun c hc => (ih c hc).1⟩
    intro fs done hn h
    exact visit_sees_list hn ih h

/-- The issues of a tree are those of the places where an assignment accumulates, in document order.
-/
theorem issues_eq_found (t : Tree) :
    issues t = (t.places.filterMap (found? t)).map fun f => issue t t.names f.1 f.2 := by
  have hroot : Fresh [⟨t.root, []⟩] t.root.children.length [] := by
    intro d hd i _ hsuffix
    rw [List.mem_singleton] at hd
    subst hd
    have hlength := hsuffix.length_le
    simp [address] at hlength
  have hall : VisitSees t t.names t.root := (visit_sees t.root).1
  have hsees := hall [] _ rfl hroot
  have htop : belongs [] ⟨t.root, []⟩ = false := rfl
  rw [issues, Tree.places, Tree.sites, sites_eq, sitesUnder_eq, Place.listFrom]
  have hstart : tracked t (bindingsIn t (innerScope t.root []) [⟨t.root, []⟩]) = [] := by
    rw [bindingsIn_eq_nil (by simpa [innerScope, stands, scope] using htop)]
    rfl
  rw [hstart] at hsees
  exact hsees.issues

end SafeRefactor.Detect.StringConcat
