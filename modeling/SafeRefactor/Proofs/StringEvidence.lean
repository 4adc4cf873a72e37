import SafeRefactor.Proofs.Concatenations

/-!
# What shows that a name is a string

A name is tracked as a string when some assignment gave it one and every assignment since then did
so again or was arithmetic. A name that last held bytes is not tracked: if a loop is rewritten to
join pieces for it, then because the piece itself looks like a string, or because the assignment is
annotated.
-/

set_option autoImplicit false

namespace SafeRefactor.Detect.StringConcat

open Syntax Cursor

/-- Whether a node is a bytes literal, or several literals in a row that begin with one. -/
def isBytesLiteral (t : Tree) (n : Node) : Bool :=
  (n.has .stringLiteral || n.has .concatenatedString) && isBytes t n

variable {t : Tree} {v : String}

theorem not_isStringLike_of_bytes {n : Node} (h : isBytesLiteral t n = true) :
    isStringLike t n = false ∧ n.has .binaryOperator = false := by
  cases n with
  | mk l cs =>
    rw [isBytesLiteral, Bool.and_eq_true, Bool.or_eq_true] at h
    obtain ⟨hform, hbytes⟩ := h
    rcases hform with hform | hform <;>
    · have hkind : l.kind = _ := Node.kind_of_has hform
      simp [isStringLike, hkind, hbytes, Node.has, Node.kind, Node.label]

/-- An assignment that leaves the names it does not give a string to as they are. -/
def Spares (t : Tree) (v : String) (b : String × Node) : Prop :=
  b.1 = v → isStringLike t b.2 = true ∨ b.2.has .binaryOperator = true

theorem mem_bind {strings : List String} {b : String × Node} : v ∈ bind t strings b ↔
    (b.1 = v ∧ isStringLike t b.2 = true) ∨ (v ∈ strings ∧ Spares t v b) := by
  unfold bind Spares
  by_cases hstring : isStringLike t b.2 = true
  · simp only [hstring, if_true, List.mem_cons, and_true, true_or, implies_true]
    exact or_congr_left eq_comm
  by_cases harith : b.2.has .binaryOperator = true
  · simp [hstring, harith]
  · simp only [hstring, harith, if_false, List.mem_filter, decide_eq_true_eq, and_false, false_or,
      Bool.false_eq_true]
    exact and_congr_right fun _ => not_congr eq_comm

/-- A name is tracked when an assignment gave it a string and none since then took it away. -/
theorem mem_tracked_iff {bs : List (String × Node)} : v ∈ tracked t bs ↔ ∃ earlier right later,
    bs = earlier ++ (v, right) :: later ∧ isStringLike t right = true ∧ ∀ b ∈ later,
    Spares t v b := by
  induction bs using List.reverseRecOn with
  | nil => simp [tracked]
  | append_singleton bs b ih =>
    have hstep : tracked t (bs ++ [b]) = bind t (tracked t bs) b := by simp [tracked]
    rw [hstep, mem_bind, ih]
    constructor
    · rintro (⟨rfl, hstring⟩ | ⟨⟨earlier, right, later, rfl, hstring, hlater⟩, hb⟩)
      · exact ⟨bs, b.2, [], rfl, hstring, by simp⟩
      · refine ⟨earlier, right, later ++ [b], by simp, hstring, ?_⟩
        intro c hc
        rcases List.mem_append.mp hc with hc | hc
        · exact hlater c hc
        · rwa [List.mem_singleton.mp hc]
    · rintro ⟨earlier, right, later, heq, hstring, hlater⟩
      rcases List.eq_nil_or_concat later with rfl | ⟨init, last, rfl⟩
      · obtain rfl : b = (v, right) := by simpa using (List.append_inj' heq rfl).2
        exact .inl ⟨rfl, hstring⟩
      · rw [List.concat_eq_append, ← List.cons_append, ← List.append_assoc] at heq
        obtain ⟨rfl, hb⟩ := List.append_inj' heq rfl
        obtain rfl : b = last := by simpa using hb
        exact .inr ⟨⟨earlier, right, init, rfl, hstring, fun c hc => hlater c (by simp [hc])⟩,
          hlater b (by simp)⟩

/-- The last assignment of a tracked name gave it a string or was arithmetic. -/
theorem spares_of_last {earlier later : List (String × Node)} {right : Node}
    (hlast : ∀ b ∈ later, b.1 ≠ v) (h : v ∈ tracked t (earlier ++ (v, right) :: later)) :
    isStringLike t right = true ∨ right.has .binaryOperator = true := by
  obtain ⟨before, value, after, heq, hstring, hafter⟩ := mem_tracked_iff.mp h
  rcases List.append_eq_append_iff.mp heq with ⟨mid, rfl, hmid⟩ | ⟨mid, rfl, hmid⟩
  · -- the string was given no earlier than by the last assignment
    cases mid with
    | nil =>
      obtain ⟨hsame, -⟩ : (v, right) = (v, value) ∧ later = after := by simpa using hmid
      left
      rwa [(Prod.mk.inj hsame).2]
    | cons b mid =>
      obtain ⟨-, rfl⟩ : (v, right) = b ∧ later = mid ++ (v, value) :: after := by simpa using hmid
      exact absurd rfl (hlast (v, value) (by simp))
  · cases mid with
    | nil =>
      obtain ⟨hsame, -⟩ : (v, value) = (v, right) ∧ after = later := by simpa using hmid
      left
      rwa [← (Prod.mk.inj hsame).2]
    | cons b mid =>
      obtain ⟨-, rfl⟩ : (v, value) = b ∧ after = mid ++ (v, right) :: later := by simpa using hmid
      exact hafter (v, right) (by simp) rfl

/-- If the last assignment to a name before the one in a loop gave it bytes, the loop is rewritten
to join pieces only where the piece itself looks like a string, or the assignment in the loop is
annotated as one. -/
theorem join_after_bytes (t : Tree) : ∀ i ∈ issues t, i.fix.isSome = true →
    ∃ g : Growth, g.place ∈ t.places ∧ g.Holds t ∧ i = g.issue t ∧ ∃ e, g.pieces = [e] ∧
      ∀ earlier right later, bindingsBefore t g.place = earlier ++ (g.name, right) :: later →
        (∀ b ∈ later, b.1 ≠ g.name) → isBytesLiteral t right = true →
        isStringLike t e = true ∨ isDeclaredString t g.node = true := by
  intro i hi hfix
  obtain ⟨g, hplace, hholds, rfl⟩ := exists_growth hi
  obtain ⟨e, hpieces, -⟩ := Growth.pieces_of_joinable (Growth.joinable hfix).1
  refine ⟨g, hplace, hholds, rfl, e, hpieces, ?_⟩
  intro earlier right later hbefore hlast hbytes
  rcases hholds.evidence with hpiece | hdeclared | htracked
  · left
    simpa [hpieces] using hpiece
  · exact .inr hdeclared
  · rw [hbefore] at htracked
    obtain ⟨hstring, harith⟩ := not_isStringLike_of_bytes hbytes
    rcases spares_of_last hlast htracked with h | h
    · simp [hstring] at h
    · simp [harith] at h

/-- Encoding a string gives bytes, but the call looks like a string. -/
theorem join_after_bytes_encoded :
    let source := "out = b''\nfor c in cs:\n out += '-'.encode()\n"
    let t : Tree := ⟨source, Tree.rootOf source.toList⟩
    ∃ g : Growth, issues t = [g.issue t] ∧ (g.issue t).fix.isSome = true ∧
      (∃ right, bindingsBefore t g.place = [("out", right)] ∧ isBytesLiteral t right = true) ∧
      ∃ e, g.pieces = [e] ∧ isStringLike t e = true := by
  intro source t
  have hissues : (issues t).map (·.fix.isSome) = [true] := by decide +kernel
  have hplaces : ∀ p ∈ t.places, (found? t p).isSome = true →
      isDeclaredString t p.here.node = false ∧
      (found? t p).map (·.2.name) = some "out" ∧
      (bindingsBefore t p).map (fun b => (b.1, isBytesLiteral t b.2)) = [("out", true)] := by
    decide +kernel
  obtain ⟨i, hi, hfix⟩ := List.map_eq_singleton_iff.mp hissues
  obtain ⟨g, hplace, hholds, rfl, e, hpieces, hevidence⟩ := join_after_bytes t i (by simp [hi]) hfix
  have hfound := found?_eq_some_iff.mpr ⟨g, rfl, hholds, rfl⟩
  obtain ⟨hundeclared, hname, hbindings⟩ := hplaces g.place hplace (by simp [hfound])
  obtain ⟨⟨name, right⟩, hbefore, hb⟩ := List.map_eq_singleton_iff.mp hbindings
  obtain ⟨rfl, hbytes⟩ := Prod.mk.inj hb
  have hout : g.name = "out" := by simpa [hfound, Growth.accumulation] using hname
  refine ⟨g, hi, hfix, ⟨right, hbefore, hbytes⟩, e, hpieces, ?_⟩
  refine (hevidence [] right [] (by rw [hbefore, hout]; rfl) (by simp) hbytes).resolve_right ?_
  rw [Growth.node, hundeclared]
  exact Bool.false_ne_true

end SafeRefactor.Detect.StringConcat
