import SafeRefactor.Proofs.Arrangement
import SafeRefactor.Proofs.TrackedStrings

/-!
# Which loops build strings

What it means that an assignment in a loop extends a string, said of the tree alone: the loop is the
innermost one around it, the name is put before some pieces that are added to it, and something
shows that it is a string. The issues reported are exactly those of such assignments.
-/

set_option autoImplicit false

namespace SafeRefactor.Detect.StringConcat

open Syntax Cursor

/-- The node is `v + e_1 + … + e_k`, with the `+` signs nested to the left. -/
inductive Addition (t : Tree) (v : String) : Node → List Node → Prop
  | name {n : Node} (form : n.has .identifier = true) (text : t.text n = v) : Addition t v n []
  | plus {n l r : Node} {es : List Node} (form : n.has .binaryOperator = true)
      (operator : operator? n = some "+") (left : n.child? .left = some l)
        (right : n.child? .right = some r)
      (rest : Addition t v l es) : Addition t v n (es ++ [r])

/-- The assignment appends some pieces to a name: it is `v += e` or `v = v + e_1 + … + e_k`. -/
inductive Appends (t : Tree) (v : String) (n : Node) : List Node → Prop
  | augmented {e : Node} (form : n.has .augmentedAssignment = true)
      (operator : operator? n = some "+=")
      (right : n.child? .right = some e) : Appends t v n [e]
  | rebuilt {right : Node} {es : List Node} (form : n.has .assignment = true)
      (value : n.child? .right = some right) (addition : Addition t v right es)
        (some_piece : es ≠ []) :
      Appends t v n es

/-- The element of a list that has no other. -/
def only? : List Node → Option Node
  | [e] => some e
  | _ => none

variable {t : Tree} {v : String} {n : Node} {es : List Node}

theorem Addition.length_lt (h : Addition t v n es) : es.length < n.size := by
  induction h with
  | @name n _ _ =>
    cases n with
    | mk l cs => simp [Node.size]
  | plus _ _ hleft _ _ ih =>
    have := Node.size_lt_of_child (Node.child?_mem hleft)
    rw [List.length_append, List.length_singleton]
    omega

theorem Addition.additionSpine_eq (h : Addition t v n es) {fuel : Nat} (hfuel : es.length ≤ fuel) :
    ∃ first, additionSpine fuel n = some (es.reverse, first) ∧ first.has .identifier = true ∧
      t.text first = v := by
  induction h generalizing fuel with
  | @name n hform htext =>
    have hplus : n.has .binaryOperator = false := by simp [Node.has, Node.kind_of_has hform]
    refine ⟨n, ?_, hform, htext⟩
    cases fuel <;> simp [additionSpine, hplus]
  | @plus n l r es hform hoperator hleft hright _ ih =>
    rw [List.length_append, List.length_singleton] at hfuel
    obtain ⟨k, rfl⟩ : ∃ k, fuel = k + 1 := ⟨fuel - 1, by omega⟩
    obtain ⟨first, hfirst, hrest⟩ := ih (show _ ≤ k by omega)
    exact ⟨first, by simp [additionSpine, hform, hoperator, hleft, hright, hfirst], hrest⟩

theorem addition_of_additionSpine {fuel : Nat} {rs : List Node} {first : Node}
    (h : additionSpine fuel n = some (rs, first)) (hform : first.has .identifier = true) :
    Addition t (t.text first) n rs.reverse := by
  induction fuel generalizing n rs with
  | zero =>
    obtain ⟨rfl, rfl⟩ : [] = rs ∧ n = first := by simpa [additionSpine] using h
    exact .name hform rfl
  | succ fuel ih =>
    rw [additionSpine] at h
    split at h
    · next hplus =>
      rw [Bool.and_eq_true, decide_eq_true_eq] at hplus
      split at h
      · next r l hright hleft =>
        obtain ⟨⟨es, last⟩, hspine, heq⟩ := Option.map_eq_some_iff.mp h
        obtain ⟨rfl, rfl⟩ : r :: es = rs ∧ last = first := by simpa using heq
        rw [List.reverse_cons]
        exact .plus hplus.1 hplus.2 hleft hright (ih hspine)
      · cases h
    · obtain ⟨rfl, rfl⟩ : [] = rs ∧ n = first := by simpa using h
      exact .name hform rfl

theorem additionSpine_iff : (∃ first, additionSpine n.size n = some (es.reverse, first) ∧
    first.has .identifier = true ∧ t.text first = v) ↔ Addition t v n es := by
  constructor
  · rintro ⟨first, hspine, hform, rfl⟩
    simpa using addition_of_additionSpine hspine hform
  · intro h
    exact h.additionSpine_eq (Nat.le_of_lt h.length_lt)

theorem Appends.unique {ds : List Node} (h : Appends t v n es) (h' : Appends t v n ds) :
    es = ds := by
  cases h with
  | augmented hform _ hright =>
    cases h' with
    | augmented _ _ hright' => simpa [hright] using hright'
    | rebuilt hform' => simp [Node.has, Node.kind_of_has hform] at hform'
  | rebuilt hform hvalue haddition =>
    cases h' with
    | augmented hform' => simp [Node.has, Node.kind_of_has hform] at hform'
    | rebuilt _ hvalue' haddition' =>
      rw [hvalue, Option.some.injEq] at hvalue'
      subst hvalue'
      obtain ⟨first, hspine, -⟩ := additionSpine_iff.mpr haddition
      obtain ⟨first', hspine', -⟩ := additionSpine_iff.mpr haddition'
      rw [hspine, Option.some.injEq, Prod.mk.injEq] at hspine'
      exact List.reverse_inj.mp hspine'.1

theorem only?_reverse (es : List Node) : only? es.reverse = only? es := by
  match es with
  | [] => rfl
  | [_] => rfl
  | d :: e :: es =>
    have hlong {es : List Node} (h : 2 ≤ es.length) : only? es = none := by
      match es, h with
      | _ :: _ :: _, _ => rfl
    rw [hlong (by simp), hlong (by simp)]

theorem Appends.assigns (h : Appends t v n es) :
    n.has .assignment = true ∨ n.has .augmentedAssignment = true := by
  cases h with
  | augmented hform => exact .inr hform
  | rebuilt hform => exact .inl hform

theorem appended?_of_augmented {right : Node} {known : Bool} {o : Option Node}
    (hform : n.has .augmentedAssignment = true) : appended? t n right v known = some o ↔
    operator? n = some "+=" ∧ (known = true ∨ isStringLike t right = true) ∧ o = some right := by
  rw [appended?, if_pos hform]
  split
  · next h =>
    rw [Bool.and_eq_true, decide_eq_true_eq, Bool.or_eq_true] at h
    simp only [h, true_and, Option.some.injEq]
    exact eq_comm
  · next h =>
    rw [Bool.and_eq_true, decide_eq_true_eq, Bool.or_eq_true] at h
    constructor
    · intro hnone
      cases hnone
    · rintro ⟨hoperator, hevidence, -⟩
      exact absurd ⟨hoperator, hevidence⟩ h

theorem appended?_of_assignment {right : Node} {known : Bool} {o : Option Node}
    (hform : n.has .augmentedAssignment = false) : appended? t n right v known = some o ↔
    ∃ rs first, additionSpine right.size right = some (rs, first) ∧ first.has .identifier = true ∧
      t.text first = v ∧ rs ≠ [] ∧ (known = true ∨ ∃ e ∈ rs, isStringLike t e = true) ∧
      o = only? rs := by
  rw [appended?, if_neg (by simp [hform])]
  constructor
  · intro h
    split at h
    · cases h
    next rs first hspine =>
    split at h
    · cases h
    next hshape =>
    split at h
    · cases h
    next hevidence =>
    simp only [ne_eq, decide_not, Bool.or_eq_true, List.isEmpty_iff, Bool.not_eq_true',
      decide_eq_false_iff_not, not_or, Bool.not_eq_false, Decidable.not_not] at hshape
    obtain ⟨⟨hne, hfirst⟩, hname⟩ := hshape
    refine ⟨rs, first, hspine, hfirst, hname, hne, ?_, ?_⟩
    · cases known <;> simp_all
    · split at h <;> simp_all [only?]
  · rintro ⟨rs, first, hspine, hfirst, hname, hne, hevidence, rfl⟩
    rw [hspine]
    dsimp only
    rw [if_neg (by simp [hne, hfirst, hname]), if_neg (by rcases hevidence with h | h <;> simp [h])]
    unfold only?
    split <;> simp_all

theorem appended?_eq_some_iff {right : Node} {known : Bool} {o : Option Node}
    (hassigns : n.has .assignment = true ∨ n.has .augmentedAssignment = true)
    (hright : n.child? .right = some right) : appended? t n right v known = some o ↔
    ∃ es, Appends t v n es ∧ (known = true ∨ ∃ e ∈ es, isStringLike t e = true) ∧ o = only? es := by
  by_cases haug : n.has .augmentedAssignment = true
  · have hno : n.has .assignment = false := by simp [Node.has, Node.kind_of_has haug]
    rw [appended?_of_augmented haug]
    constructor
    · rintro ⟨hoperator, hevidence, rfl⟩
      exact ⟨[right], .augmented haug hoperator hright, by simpa using hevidence, rfl⟩
    · rintro ⟨es, happends, hevidence, rfl⟩
      cases happends with
      | augmented _ hoperator hvalue =>
        rw [hright, Option.some.injEq] at hvalue
        subst hvalue
        exact ⟨hoperator, by simpa using hevidence, rfl⟩
      | rebuilt hform => simp [hno] at hform
  · have hassign := hassigns.resolve_right haug
    rw [appended?_of_assignment (by simpa using haug)]
    constructor
    · rintro ⟨rs, first, hspine, hfirst, rfl, hne, hevidence, rfl⟩
      exact ⟨rs.reverse,
        .rebuilt hassign hright (addition_of_additionSpine hspine hfirst) (by simpa using hne),
        by simpa using hevidence, (only?_reverse rs).symm⟩
    · rintro ⟨es, happends, hevidence, rfl⟩
      cases happends with
      | augmented hform => exact absurd hform haug
      | rebuilt _ hvalue haddition hne =>
        rw [hright, Option.some.injEq] at hvalue
        subst hvalue
        obtain ⟨first, hspine, hfirst, hname⟩ := additionSpine_iff.mpr haddition
        exact ⟨es.reverse, first, hspine, hfirst, hname, by simpa using hne,
          by simpa using hevidence, (only?_reverse es).symm⟩

theorem accumulation?_eq_some_iff {strings : List String} {loop parent : Node} {a : Accumulation}
    (hassigns : n.has .assignment = true ∨ n.has .augmentedAssignment = true) :
    accumulation? t strings loop parent n = some a ↔ ∃ left es, n.child? .left = some left ∧
      left.has .identifier = true ∧ t.text left ∉ loopNames t loop ∧ Appends t (t.text left) n es ∧
      ((∃ e ∈ es, isStringLike t e = true) ∨ isDeclaredString t n = true ∨ t.text left ∈ strings) ∧
      a = ⟨if parent.has .expressionStatement then parent else n, t.text left, only? es⟩ := by
  simp only [accumulation?, Option.bind_eq_bind, Option.bind_eq_some_iff]
  constructor
  · rintro ⟨left, hleft, h⟩
    split at h
    · cases h
    next hform =>
    split at h
    · cases h
    next hfree =>
    simp only [Option.bind_eq_some_iff, Option.some.injEq] at h
    obtain ⟨right, hright, o, happended, rfl⟩ := h
    obtain ⟨es, happends, hevidence, rfl⟩ := (appended?_eq_some_iff hassigns hright).mp happended
    refine ⟨left, es, hleft, by simpa using hform, by simpa using hfree, happends, ?_, rfl⟩
    rcases hevidence with hknown | hpiece
    · exact .inr (by simpa [or_comm] using hknown)
    · exact .inl hpiece
  · rintro ⟨left, es, hleft, hform, hfree, happends, hevidence, rfl⟩
    have hright : ∃ right, n.child? .right = some right := by
      cases happends with
      | augmented _ _ hright => exact ⟨_, hright⟩
      | rebuilt _ hright => exact ⟨_, hright⟩
    obtain ⟨right, hright⟩ := hright
    refine ⟨left, hleft, ?_⟩
    rw [if_neg (by simp [hform]), if_neg (by simpa using hfree)]
    simp only [Option.bind_eq_some_iff, Option.some.injEq]
    refine ⟨right, hright, only? es, ?_, rfl⟩
    refine (appended?_eq_some_iff hassigns hright).mpr ⟨es, happends, ?_, rfl⟩
    rcases hevidence with hpiece | hknown
    · exact .inr hpiece
    · exact .inl (by simpa [or_comm] using hknown)

/-- An assignment in a loop that may extend a name: where it is, the loop, the name and what is
added. -/
structure Growth where
  place : Place
  loop : Node
  name : String
  pieces : List Node

namespace Growth

def node (g : Growth) : Node := g.place.here.node

/-- The statement around the assignment, or else the assignment itself. -/
def statement (g : Growth) : Node :=
  match g.place.here.frames with
  | f :: _ => if f.parent.has .expressionStatement then f.parent else g.node
  | [] => g.node

def accumulation (g : Growth) : Accumulation := ⟨g.statement, g.name, only? g.pieces⟩

def issue (t : Tree) (g : Growth) : Issue := StringConcat.issue t t.names g.loop g.accumulation

/-- The assignment does extend a string. -/
structure Holds (t : Tree) (g : Growth) : Prop where
  stands : stands g.place.here.frames = true
  /-- The innermost loop with the assignment in its body. -/
  inLoop : loop? g.node g.place.here.frames = some g.loop
  left : ∃ left, g.node.child? .left = some left ∧ left.has .identifier = true ∧
    t.text left = g.name
  /-- The loop does not itself bind the name. -/
  free : g.name ∉ loopNames t g.loop
  appends : Appends t g.name g.node g.pieces
  /-- What shows that the name is a string. -/
  evidence : (∃ e ∈ g.pieces, isStringLike t e = true) ∨ isDeclaredString t g.node = true ∨
    g.name ∈ tracked t (bindingsBefore t g.place)

theorem Holds.unique {g g' : Growth} (h : g.Holds t) (h' : g'.Holds t)
    (hplace : g.place = g'.place) :
    g = g' := by
  obtain ⟨place, loop, name, pieces⟩ := g
  obtain ⟨place', loop', name', pieces'⟩ := g'
  obtain rfl : place = place' := hplace
  have hloop : loop = loop' := Option.some.inj (h.inLoop.symm.trans h'.inLoop)
  obtain ⟨left, hleft, -, rfl⟩ := h.left
  obtain ⟨left', hleft', -, rfl⟩ := h'.left
  have hsame : left = left' := Option.some.inj (hleft.symm.trans hleft')
  subst hloop hsame
  rw [Growth.mk.injEq]
  exact ⟨rfl, rfl, rfl, h.appends.unique h'.appends⟩

end Growth

theorem found?_eq_some_iff {p : Place} {r : Node × Accumulation} : found? t p = some r ↔
    ∃ g : Growth, g.place = p ∧ g.Holds t ∧ r = (g.loop, g.accumulation) := by
  obtain ⟨before, n, frames⟩ := p
  cases frames with
  | nil =>
    constructor
    · intro h
      cases h
    · rintro ⟨g, hplace, hg, -⟩
      have := hg.stands
      simp [hplace, stands] at this
  | cons f fs =>
    rw [found?_cons]
    constructor
    · intro h
      split at h
      · next hcond =>
        simp only [Bool.and_eq_true, Bool.or_eq_true] at hcond
        obtain ⟨lp, hloop, h⟩ := Option.bind_eq_some_iff.mp h
        obtain ⟨a, ha, rfl⟩ := Option.map_eq_some_iff.mp h
        obtain ⟨left, es, hleft, hform, hfree, happends, hevidence, rfl⟩ :=
          (accumulation?_eq_some_iff hcond.2).mp ha
        exact ⟨⟨⟨before, n, f :: fs⟩, lp, t.text left, es⟩, rfl,
          ⟨hcond.1, hloop, ⟨left, hleft, hform, rfl⟩, hfree, happends, hevidence⟩, rfl⟩
      · simp at h
    · rintro ⟨⟨place, lp, name, es⟩, hplace, hg, rfl⟩
      obtain rfl : place = ⟨before, n, f :: fs⟩ := hplace
      obtain ⟨left, hleft, hform, rfl⟩ := hg.left
      have hassigns : n.has .assignment = true ∨ n.has .augmentedAssignment = true :=
        hg.appends.assigns
      have hstands : stands (f :: fs) = true := hg.stands
      rw [if_pos (by simpa using ⟨hstands, hassigns⟩)]
      refine Option.bind_eq_some_iff.mpr ⟨lp, hg.inLoop, Option.map_eq_some_iff.mpr ⟨_, ?_, rfl⟩⟩
      exact (accumulation?_eq_some_iff hassigns).mpr
        ⟨left, es, hleft, hform, hg.free, hg.appends, hg.evidence, rfl⟩

/-- The assignments at some places that extend strings, in the order of the places. -/
theorem exists_growths_at (t : Tree) (ps : List Place) : ∃ gs : List Growth,
    ps.filterMap (found? t) = gs.map (fun g => (g.loop, g.accumulation)) ∧
      (gs.map (·.place)).Sublist ps ∧ ∀ g, g ∈ gs ↔ g.place ∈ ps ∧ g.Holds t := by
  induction ps with
  | nil => exact ⟨[], by simp⟩
  | cons p ps ih =>
    obtain ⟨gs, hgs, hplaces, hmem⟩ := ih
    cases hp : found? t p with
    | none =>
      refine ⟨gs, by simp [hp, hgs], hplaces.trans (List.sublist_cons_self _ _), ?_⟩
      intro g
      rw [hmem, List.mem_cons]
      refine and_congr_left fun hg => (or_iff_right ?_).symm
      intro heq
      have := found?_eq_some_iff.mpr ⟨g, heq, hg, rfl⟩
      simp [hp] at this
    | some r =>
      obtain ⟨g, hplace, hg, rfl⟩ := found?_eq_some_iff.mp hp
      -- a growth at this place is the one found here, as a place extends one name in one way
      refine ⟨g :: gs, by simp [hp, hgs], by simpa [hplace] using hplaces, ?_⟩
      intro g'
      rw [List.mem_cons, List.mem_cons, hmem]
      constructor
      · rintro (rfl | ⟨h, hg'⟩)
        · exact ⟨.inl hplace, hg⟩
        · exact ⟨.inr h, hg'⟩
      · rintro ⟨heq | h, hg'⟩
        · exact .inl (hg'.unique hg (heq.trans hplace.symm))
        · exact .inr ⟨h, hg'⟩

/-- The assignments that extend strings, in document order, and their issues. -/
theorem exists_growths (t : Tree) : ∃ gs : List Growth, issues t = gs.map (Growth.issue t) ∧
    (gs.map (·.place)).Sublist t.places ∧ ∀ g, g ∈ gs ↔ g.place ∈ t.places ∧ g.Holds t := by
  obtain ⟨gs, hgs, hplaces, hmem⟩ := exists_growths_at t t.places
  refine ⟨gs, ?_, hplaces, hmem⟩
  rw [issues_eq_found, hgs, List.map_map]
  rfl

theorem exists_growth {i : Issue} (hi : i ∈ issues t) :
    ∃ g : Growth, g.place ∈ t.places ∧ g.Holds t ∧ i = g.issue t := by
  obtain ⟨gs, hissues, -, hmem⟩ := exists_growths t
  rw [hissues, List.mem_map] at hi
  obtain ⟨g, hg, rfl⟩ := hi
  exact ⟨g, ((hmem g).mp hg).1, ((hmem g).mp hg).2, rfl⟩

theorem only?_eq_some {e : Node} (h : only? es = some e) : es = [e] := by
  match es, h with
  | [_], h => rw [Option.some.inj h]

/-- What it takes for a fix to be offered: the loop is a plain `for` loop that begins its line, the
accumulation is a statement of its own below the header and all that the loop does, and it appends a
single piece that does not use the name. -/
structure Joinable (t : Tree) (loop : Node) (a : Accumulation) : Prop where
  isFor : loop.has .forStatement = true
  noElse : loop.child? .alternative = none
  sole : bodyStatements loop = [a.statement]
  single : a.statement.has .expressionStatement = true → a.statement.namedChildren.length = 1
  below : loop.line < a.statement.line
  leads : (t.indentation loop.line).utf8ByteSize = loop.start.column
  piece : ∃ e, a.appended = some e ∧ a.name ∉ t.namesOf e

theorem joinFix?_eq_some {taken : List String} {loop : Node} {a : Accumulation} {range : LineRange}
    {fix : String} (h : joinFix? t taken loop a = some (range, fix)) :
    Joinable t loop a ∧ range = .of loop.line loop.endLine := by
  simp only [joinFix?, Option.bind_eq_bind, Option.bind_eq_some_iff] at h
  obtain ⟨appended, happended, h⟩ := h
  split at h
  · next happlies =>
    simp only [Bool.and_eq_true, decide_eq_true_eq, Bool.not_eq_true', Option.isNone_iff_eq_none,
      isSoleStatement] at happlies
    obtain ⟨⟨⟨⟨⟨⟨⟨hfor, helse⟩, hsole⟩, hsingle⟩, hname⟩, hbelow⟩, hleads⟩, -⟩ := happlies
    simp only [Option.some.injEq, Prod.mk.injEq] at h
    refine ⟨⟨hfor, helse, hsole, ?_, hbelow, hleads, appended, happended, by simpa using hname⟩,
      h.1.symm⟩
    intro hstatement
    simpa [hstatement] using hsingle
  · cases h

namespace Growth

variable {g : Growth}

theorem exists_join (h : (g.issue t).fix.isSome = true) :
    ∃ r, joinFix? t t.names g.loop g.accumulation = some r := by
  cases hjoin : joinFix? t t.names g.loop g.accumulation with
  | none => simp [issue, StringConcat.issue, hjoin] at h
  | some r => exact ⟨r, rfl⟩

theorem issue_of_join {r : LineRange × String}
    (h : joinFix? t t.names g.loop g.accumulation = some r) :
    (g.issue t).range = r.1 ∧ (g.issue t).fix = some r.2 := by
  simp [issue, StringConcat.issue, h]

theorem range_of_no_join (h : joinFix? t t.names g.loop g.accumulation = none) :
    (g.issue t).range = .of g.statement.line g.statement.endLine := by
  simp only [issue, StringConcat.issue, h]
  rfl

theorem joinable (h : (g.issue t).fix.isSome = true) :
    Joinable t g.loop g.accumulation ∧ (g.issue t).range = .of g.loop.line g.loop.endLine := by
  obtain ⟨⟨range, fix⟩, hjoin⟩ := exists_join h
  obtain ⟨hjoinable, rfl⟩ := joinFix?_eq_some hjoin
  exact ⟨hjoinable, (issue_of_join hjoin).1⟩

theorem pieces_of_joinable (h : Joinable t g.loop g.accumulation) :
    ∃ e, g.pieces = [e] ∧ g.name ∉ t.namesOf e := by
  obtain ⟨e, happended, hname⟩ := h.piece
  exact ⟨e, only?_eq_some happended, hname⟩

theorem node_isAssigning (h : g.Holds t) : g.node.isAssigning = true := by
  rcases h.appends.assigns with hn | hn <;> simp [Node.isAssigning, hn]

theorem statement_cases (hp : g.place ∈ t.places) (h : g.Holds t) :
    (g.statement.has .expressionStatement = true ∧ g.node ∈ g.statement.namedChildren) ∨
      (g.statement.has .expressionStatement = false ∧ g.statement = g.node) := by
  have hnamed : g.node.isNamed = true ∧ g.node.has .comment = false ∧
      g.node.has .expressionStatement = false := by
    rcases h.appends.assigns with hn | hn <;> simp [Node.isNamed, Node.has, Node.kind_of_has hn]
  unfold statement
  split
  · next f fs hframes =>
    have hchild := child_of_mem_sites (Tree.mem_sites_of_mem_places hp) f (by simp [hframes])
    split
    · next hparent =>
      have hkept : (g.node.isNamed && !g.node.has .comment) = true := by simp [hnamed]
      exact .inl ⟨hparent, List.mem_filter.mpr ⟨hchild, hkept⟩⟩
    · exact .inr ⟨hnamed.2.2, rfl⟩
  · exact .inr ⟨hnamed.2.2, rfl⟩

theorem isAssigning (hp : g.place ∈ t.places) (h : g.Holds t) : g.statement.isAssigning = true := by
  rcases statement_cases hp h with ⟨hstatement, -⟩ | ⟨-, heq⟩
  · simp [Node.isAssigning, hstatement]
  · rw [heq]
    exact node_isAssigning h

theorem statement_mem (hp : g.place ∈ t.places) : g.statement ∈ t.root.preorder := by
  obtain ⟨hnode, hframes⟩ := mem_preorder_of_mem_sites (Tree.mem_sites_of_mem_places hp)
  unfold statement
  split
  · next f fs heq =>
    split
    · exact hframes f (by simp [heq])
    · exact hnode
  · exact hnode

theorem loop_mem (hp : g.place ∈ t.places) (h : g.Holds t) : g.loop ∈ t.root.preorder := by
  obtain ⟨f, hf, heq⟩ := loop?_eq_some h.inLoop
  rw [← heq]
  exact (mem_preorder_of_mem_sites (Tree.mem_sites_of_mem_places hp)).2 f hf

end Growth

/-- Exactly the assignments that extend strings are reported, each once and in document order. A fix
is offered only where a `for` loop does nothing but add one piece. -/
theorem issues_exact (t : Tree) :
    t.places.map (·.here.node) = t.root.preorder ∧ t.places.Nodup ∧
    ∃ gs : List Growth, issues t = gs.map (Growth.issue t) ∧ (gs.map (·.place)).Sublist t.places ∧
      (∀ g, g ∈ gs ↔ g.place ∈ t.places ∧ g.Holds t) ∧
      ∀ g ∈ gs, (g.issue t).fix.isSome = true →
        g.loop.has .forStatement = true ∧ g.loop.child? .alternative = none ∧
        bodyStatements g.loop = [g.statement] ∧
        ∃ e, g.pieces = [e] ∧ g.name ∉ t.namesOf e := by
  obtain ⟨gs, hissues, hplaces, hmem⟩ := exists_growths t
  refine ⟨t.places_nodes, t.places_nodup, gs, hissues, hplaces, hmem, ?_⟩
  intro g hg hfix
  obtain ⟨hplace, hholds⟩ := (hmem g).mp hg
  obtain ⟨hjoinable, -⟩ := Growth.joinable hfix
  exact ⟨hjoinable.isFor, hjoinable.noElse, hjoinable.sole, Growth.pieces_of_joinable hjoinable⟩

/-- The function has names of its own, so only the loop after it extends a string. -/
theorem issues_exact_scopes :
    let source := "s = ''\ndef f(s):\n for x in y:\n  s += x\nfor x in y:\n s += x\n"
    let t : Tree := ⟨source, Tree.rootOf source.toList⟩
    ∃ g : Growth, issues t = [g.issue t] ∧ g.Holds t ∧ (g.issue t).line = 6 ∧
      g.loop.has .forStatement = true ∧ ∃ e, g.pieces = [e] ∧ g.name ∉ t.namesOf e := by
  intro source t
  have hfacts : (issues t).map (fun i => (i.line, i.fix.isSome)) = [(6, true)] := by decide +kernel
  obtain ⟨-, -, gs, hissues, -, hmem, hfixes⟩ := issues_exact t
  rw [hissues, List.map_map] at hfacts
  obtain ⟨g, rfl, hg⟩ := List.map_eq_singleton_iff.mp hfacts
  obtain ⟨hline, hfix⟩ := Prod.mk.inj hg
  obtain ⟨hfor, -, -, e, he⟩ := hfixes g (by simp) hfix
  exact ⟨g, hissues, ((hmem g).mp (by simp)).2, hline, hfor, e, he⟩

end SafeRefactor.Detect.StringConcat
