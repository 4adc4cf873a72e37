import SafeRefactor.Diff.Search
import SafeRefactor.Diff.Compaction

/-!
# What a script says

However a script was found and compacted, it spells out the two texts it was made for. Wherever the
search divides the texts, and however far chunks are moved, every chunk stays at its place in the
texts that it is part of. Nothing is said of the place of a removed chunk in the new text or of an
added chunk in the old one: chunks that pass each other are not renumbered there.
-/

set_option autoImplicit false

namespace SafeRefactor.Diff

theorem commonStart_le_left (a b : List String) : commonStart a b ≤ a.length := by
  induction a generalizing b with
  | nil => simp [commonStart]
  | cons x a ih =>
    cases b with
    | nil => simp [commonStart]
    | cons y b =>
      have := ih b
      rw [commonStart, List.length_cons]
      split <;> omega

theorem take_commonStart (a b : List String) :
    a.take (commonStart a b) = b.take (commonStart a b) := by
  induction a generalizing b with
  | nil => simp [commonStart]
  | cons x a ih =>
    cases b with
    | nil => simp [commonStart]
    | cons y b =>
      by_cases h : x = y
      · simp [commonStart, h, ih]
      · simp [commonStart, h]

theorem commonStart_le_right (a b : List String) : commonStart a b ≤ b.length := by
  have hlen := congrArg List.length (take_commonStart a b)
  have hle := commonStart_le_left a b
  rw [List.length_take, List.length_take] at hlen
  omega

theorem commonEnd_le_left (a b : List String) : commonEnd a b ≤ a.length := by
  have h := commonStart_le_left a.reverse b.reverse
  rwa [List.length_reverse] at h

theorem commonEnd_le_right (a b : List String) : commonEnd a b ≤ b.length := by
  have h := commonStart_le_right a.reverse b.reverse
  rwa [List.length_reverse] at h

theorem drop_commonEnd (a b : List String) :
    a.drop (a.length - commonEnd a b) = b.drop (b.length - commonEnd a b) := by
  have h := take_commonStart a.reverse b.reverse
  rw [List.take_reverse, List.take_reverse] at h
  exact List.reverse_inj.mp h

theorem Chunk.old_of_empty {c : Chunk} (h : c.lines = []) : c.old = [] := by
  cases ht : c.tag <;> simp [Chunk.old, ht, h]

theorem Chunk.new_of_empty {c : Chunk} (h : c.lines = []) : c.new = [] := by
  cases ht : c.tag <;> simp [Chunk.new, ht, h]

namespace Script

@[simp]
theorem old_nil : old [] = [] := rfl

@[simp]
theorem new_nil : new [] = [] := rfl

@[simp]
theorem old_cons (c : Chunk) (s : Script) : old (c :: s) = c.old ++ old s := rfl

@[simp]
theorem new_cons (c : Chunk) (s : Script) : new (c :: s) = c.new ++ new s := rfl

@[simp]
theorem old_append (s t : Script) : old (s ++ t) = old s ++ old t := List.flatMap_append

@[simp]
theorem new_append (s t : Script) : new (s ++ t) = new s ++ new t := List.flatMap_append

/-- The chunks of a script follow each other from given lines of the two texts on, each of them in
the texts that it is part of. -/
def Placed : Nat → Nat → Script → Prop
  | _, _, [] => True
  | i, j, c :: s => (c.tag ≠ .added → c.oldAt = i) ∧ (c.tag ≠ .removed → c.newAt = j) ∧
      Placed (i + c.old.length) (j + c.new.length) s

theorem placed_append (i j : Nat) (s t : Script) : Placed i j (s ++ t) ↔
    Placed i j s ∧ Placed (i + (old s).length) (j + (new s).length) t := by
  induction s generalizing i j with
  | nil => simp [Placed]
  | cons c s ih => simp [Placed, ih, and_assoc, Nat.add_assoc]

/-- The script leads from one list of lines to another one, which begin at given lines of their
texts. -/
structure Leads (i j : Nat) (a b : List String) (s : Script) : Prop where
  old_eq : old s = a
  new_eq : new s = b
  placed : Placed i j s

theorem Leads.append {i j : Nat} {a b c d : List String} {s t : Script} (hs : Leads i j a b s)
    (ht : Leads (i + a.length) (j + b.length) c d t) : Leads i j (a ++ c) (b ++ d) (s ++ t) where
  old_eq := by rw [old_append, hs.old_eq, ht.old_eq]
  new_eq := by rw [new_append, hs.new_eq, ht.new_eq]
  placed := by
    rw [placed_append, hs.old_eq, hs.new_eq]
    exact ⟨hs.placed, ht.placed⟩

theorem leads_chunk {i j : Nat} (c : Chunk) (hold : c.tag ≠ .added → c.oldAt = i)
    (hnew : c.tag ≠ .removed → c.newAt = j) :
    Leads i j c.old c.new (chunk c.tag c.oldAt c.newAt c.lines) := by
  unfold chunk
  split
  · next h =>
    have hempty := List.isEmpty_iff.mp h
    exact ⟨(Chunk.old_of_empty hempty).symm, (Chunk.new_of_empty hempty).symm, trivial⟩
  · exact ⟨by simp, by simp, hold, hnew, trivial⟩

theorem leads_same (i j : Nat) (ls : List String) : Leads i j ls ls (chunk .same i j ls) :=
  leads_chunk ⟨.same, i, j, ls⟩ (fun _ => rfl) fun _ => rfl

theorem leads_removed (i j k : Nat) (ls : List String) : Leads i j ls [] (chunk .removed i k ls) :=
  leads_chunk ⟨.removed, i, k, ls⟩ (fun _ => rfl) fun h => absurd rfl h

theorem leads_added (i j k : Nat) (ls : List String) : Leads i j [] ls (chunk .added k j ls) :=
  leads_chunk ⟨.added, k, j, ls⟩ (fun h => absurd rfl h) fun _ => rfl

theorem leads_replaced (i j : Nat) (a b : List String) :
    Leads i j a b (chunk .removed i j a ++ chunk .added i j b) := by
  have h := (leads_removed i j j a).append (leads_added (i + a.length) j i b)
  simpa using h

end Script

open Script

/-- The part of a search between the common beginning and the common end of two lists. -/
def between (fuel i j : Nat) (a b : List String) : Script :=
  if a.isEmpty || b.isEmpty then chunk .removed i j a ++ chunk .added i j b
  else
    match midpoint? a b with
    | some (x, y) =>
      search fuel i j (a.take x) (b.take y) ++ search fuel (i + x) (j + y) (a.drop x) (b.drop y)
    | none => chunk .removed i j a ++ chunk .added i j b

theorem search_succ (fuel i j : Nat) (a b : List String) :
    let p := commonStart a b
    let s := commonEnd (a.drop p) (b.drop p)
    let a' := (a.drop p).take ((a.drop p).length - s)
    let b' := (b.drop p).take ((b.drop p).length - s)
    search (fuel + 1) i j a b =
      chunk .same i j (a.take p) ++ between fuel (i + p) (j + p) a' b' ++
        chunk .same (i + p + a'.length) (j + p + b'.length)
          ((a.drop p).drop ((a.drop p).length - s)) := rfl

theorem search_nil_left (fuel i j : Nat) (b : List String) :
    search fuel i j [] b = chunk .added i j b := by
  cases fuel with
  | zero => simp [search, chunk]
  | succ fuel => simp [search_succ, between, commonStart, commonEnd, chunk]

theorem search_nil_right (fuel i j : Nat) (a : List String) :
    search fuel i j a [] = chunk .removed i j a := by
  have hstart : commonStart a [] = 0 := Nat.le_zero.mp (commonStart_le_right a [])
  have hend : commonEnd a [] = 0 := Nat.le_zero.mp (commonEnd_le_right a [])
  cases fuel with
  | zero => simp [search, chunk]
  | succ fuel => simp [search_succ, between, hstart, hend, chunk]

/-- A point of division may lie past the end of a list. What is left of that list is then empty, and
the place that it is searched from does not matter. -/
theorem search_drop_leads {fuel : Nat} (h : ∀ i j a b, Leads i j a b (search fuel i j a b))
    (i j x y : Nat)
    (a b : List String) : Leads (i + (a.take x).length) (j + (b.take y).length) (a.drop x)
    (b.drop y)
      (search fuel (i + x) (j + y) (a.drop x) (b.drop y)) := by
  by_cases hx : x ≤ a.length
  · by_cases hy : y ≤ b.length
    · rw [List.length_take_of_le hx, List.length_take_of_le hy]
      exact h (i + x) (j + y) _ _
    · rw [List.drop_of_length_le (by omega : b.length ≤ y), search_nil_right,
        List.length_take_of_le hx]
      exact leads_removed _ _ _ _
  · rw [List.drop_of_length_le (by omega : a.length ≤ x), search_nil_left]
    by_cases hy : y ≤ b.length
    · rw [List.length_take_of_le hy]
      exact leads_added _ _ _ _
    · rw [List.drop_of_length_le (by omega : b.length ≤ y)]
      exact ⟨rfl, rfl, trivial⟩

theorem between_leads {fuel : Nat} (h : ∀ i j a b, Leads i j a b (search fuel i j a b)) (i j : Nat)
    (a b : List String) : Leads i j a b (between fuel i j a b) := by
  unfold between
  split
  · exact leads_replaced i j a b
  · split
    · next x y _ =>
      have hboth := (h i j (a.take x) (b.take y)).append (search_drop_leads h i j x y a b)
      rwa [List.take_append_drop, List.take_append_drop] at hboth
    · exact leads_replaced i j a b

/-- Any way of dividing the texts gives a script between them; the midpoint only decides how short
it is. -/
theorem search_leads (fuel i j : Nat) (a b : List String) :
    Leads i j a b (search fuel i j a b) := by
  induction fuel generalizing i j a b with
  | zero => exact leads_replaced i j a b
  | succ fuel ih =>
    rw [search_succ]
    have hpa := commonStart_le_left a b
    have hpb := commonStart_le_right a b
    have hstart := take_commonStart a b
    generalize commonStart a b = p at hpa hpb hstart ⊢
    have hend := drop_commonEnd (a.drop p) (b.drop p)
    generalize commonEnd (a.drop p) (b.drop p) = s at hend ⊢
    have hfirst : Leads i j (a.take p) (b.take p) (chunk .same i j (a.take p)) := by
      rw [← hstart]
      exact leads_same i j _
    have hmiddle := between_leads ih (i + p) (j + p) ((a.drop p).take ((a.drop p).length - s))
      ((b.drop p).take ((b.drop p).length - s))
    have hrest := hmiddle.append (leads_same _ _ ((a.drop p).drop ((a.drop p).length - s)))
    rw [List.take_append_drop, hend, List.take_append_drop] at hrest
    have hall := hfirst.append (by
      rw [List.length_take_of_le hpa, List.length_take_of_le hpb]
      exact hrest)
    rwa [List.take_append_drop, List.take_append_drop, ← List.append_assoc, ← hend] at hall

theorem findScript_leads (a b : List String) : Leads 0 0 a b (findScript a b) :=
  search_leads _ 0 0 a b

/-- A script may stand in place of another one, wherever that stands: it says the same and keeps
places. -/
structure Keeps (s t : Script) : Prop where
  old_eq : Script.old t = Script.old s
  new_eq : Script.new t = Script.new s
  placed : ∀ i j, Placed i j s → Placed i j t

namespace Keeps

variable {s t u v : Script}

theorem refl (s : Script) : Keeps s s := ⟨rfl, rfl, fun _ _ h => h⟩

theorem trans (h : Keeps s t) (h' : Keeps t u) : Keeps s u where
  old_eq := h'.old_eq.trans h.old_eq
  new_eq := h'.new_eq.trans h.new_eq
  placed i j hs := h'.placed i j (h.placed i j hs)

theorem append (h : Keeps s t) (h' : Keeps u v) : Keeps (s ++ u) (t ++ v) where
  old_eq := by rw [old_append, old_append, h.old_eq, h'.old_eq]
  new_eq := by rw [new_append, new_append, h.new_eq, h'.new_eq]
  placed i j hs := by
    rw [placed_append] at hs ⊢
    rw [h.old_eq, h.new_eq]
    exact ⟨h.placed i j hs.1, h'.placed _ _ hs.2⟩

theorem append_left (before : Script) (h : Keeps s t) : Keeps (before ++ s) (before ++ t) :=
  (refl before).append h

theorem append_right (h : Keeps s t) (after : Script) : Keeps (s ++ after) (t ++ after) :=
  h.append (refl after)

theorem cons (c : Chunk) (h : Keeps s t) : Keeps (c :: s) (c :: t) := h.append_left [c]

theorem leads {i j : Nat} {a b : List String} (h : Keeps s t) (hs : Leads i j a b s) :
    Leads i j a b t where
  old_eq := h.old_eq.trans hs.old_eq
  new_eq := h.new_eq.trans hs.new_eq
  placed := h.placed i j hs.placed

end Keeps

namespace Focus

/-- An empty chunk can be left out. -/
theorem keeps_empty (c : Chunk) (h : c.lines = []) : Keeps [c] [] where
  old_eq := by simp [Chunk.old_of_empty h]
  new_eq := by simp [Chunk.new_of_empty h]
  placed _ _ _ := trivial

theorem pushAfter_keeps (oldAt newAt : Nat) (lines : List String) (after : List Chunk) :
    Keeps (⟨.same, oldAt, newAt, lines⟩ :: after) (pushAfter oldAt newAt lines after) := by
  cases after with
  | nil => exact .refl _
  | cons c cs =>
    rw [pushAfter]
    split
    · next h =>
      refine Keeps.append_right (s := [⟨.same, oldAt, newAt, lines⟩, c])
        (t := [c.moveUp lines.length (lines ++ c.lines)]) ⟨?_, ?_, ?_⟩ cs
      · simp [Chunk.moveUp, Chunk.old, h]
      · simp [Chunk.moveUp, Chunk.new, h]
      · intro i j hplaced
        simp [Placed, Chunk.moveUp, Chunk.old, Chunk.new, h] at hplaced ⊢
        omega
    · exact .refl _

theorem pushBefore_keeps (oldAt newAt : Nat) (lines : List String) (before : List Chunk) :
    Keeps (before.reverse ++ [⟨.same, oldAt, newAt, lines⟩])
      (pushBefore oldAt newAt lines before).reverse := by
  cases before with
  | nil => exact .refl _
  | cons c cs =>
    rw [pushBefore]
    split
    · next h =>
      rw [List.reverse_cons, List.reverse_cons, List.append_assoc]
      refine Keeps.append_left _ ⟨?_, ?_, ?_⟩
      · simp [Chunk.old, h]
      · simp [Chunk.new, h]
      · intro i j hplaced
        simp [Placed, h] at hplaced ⊢
        omega
    · simp only [List.reverse_cons]
      exact .refl _

/-- Moving an added chunk up past lines that equal its own last ones. -/
theorem keeps_up {p c : Chunk} (hp : p.tag = .same) (hc : c.tag = .added) :
    let n := commonEnd p.lines c.lines
    let moved := p.lines.drop (p.lines.length - n)
    Keeps [p, c]
      [{ p with lines := p.lines.take (p.lines.length - n) },
       c.moveUp n (moved ++ c.lines.take (c.lines.length - n)),
       ⟨.same, p.oldAt + p.lines.length - n, c.newAt + c.lines.length - n, moved⟩] := by
  intro n moved
  have hmoved : moved = c.lines.drop (c.lines.length - n) := drop_commonEnd p.lines c.lines
  have hnp : n ≤ p.lines.length := commonEnd_le_left _ _
  have hnc : n ≤ c.lines.length := commonEnd_le_right _ _
  refine ⟨?_, ?_, ?_⟩
  · simp [Chunk.old, Chunk.moveUp, hp, hc, moved]
  · have hsplit : p.lines.take (p.lines.length - n) ++ moved = p.lines := List.take_append_drop _ _
    have hown : c.lines.take (c.lines.length - n) ++ moved = c.lines := by
      rw [hmoved, List.take_append_drop]
    simp only [new_cons, Chunk.new, Chunk.moveUp, hp, hc, new_nil, List.append_nil,
      List.append_assoc, hown]
    rw [← List.append_assoc, hsplit]
  · intro i j hplaced
    simp [Placed, Chunk.old, Chunk.new, Chunk.moveUp, hp, hc, moved] at hplaced ⊢
    omega

/-- Moving an added chunk down past lines that equal its own first ones. -/
theorem keeps_down {c q : Chunk} (hc : c.tag = .added) (hq : q.tag = .same) :
    let n := commonStart q.lines c.lines
    let moved := q.lines.take n
    Keeps [c, q]
      [⟨.same, q.oldAt, c.newAt, moved⟩, c.moveDown n (c.lines.drop n ++ moved),
       q.moveDown n (q.lines.drop n)] := by
  intro n moved
  have hmoved : moved = c.lines.take n := take_commonStart q.lines c.lines
  have hnq : n ≤ q.lines.length := commonStart_le_left _ _
  have hnc : n ≤ c.lines.length := commonStart_le_right _ _
  refine ⟨?_, ?_, ?_⟩
  · simp [Chunk.old, Chunk.moveDown, hq, hc, moved]
  · have hsplit : moved ++ q.lines.drop n = q.lines := List.take_append_drop _ _
    have hown : moved ++ c.lines.drop n = c.lines := by rw [hmoved, List.take_append_drop]
    simp only [new_cons, Chunk.new, Chunk.moveDown, hq, hc, new_nil, List.append_nil,
      List.append_assoc, hsplit]
    rw [← List.append_assoc, hown]
  · intro i j hplaced
    simp [Placed, Chunk.old, Chunk.new, Chunk.moveDown, hq, hc, moved] at hplaced ⊢
    omega

theorem keeps_join {p c : Chunk} (h : p.tag = c.tag) (hc : c.tag ≠ .same) :
    Keeps [p, c] [{ p with lines := p.lines ++ c.lines }] := by
  cases ht : c.tag with
  | same => exact absurd ht hc
  | removed | added =>
    rw [ht] at h
    refine ⟨by simp [Chunk.old, h, ht], by simp [Chunk.new, h, ht], ?_⟩
    intro i j hplaced
    simp [Placed, h] at hplaced ⊢
    exact hplaced.1

/-- A removed and an added chunk can pass each other: neither is part of the other's text. -/
theorem keeps_swap {p c : Chunk} (h : p.tag ≠ c.tag) (hp : p.tag ≠ .same) (hc : c.tag ≠ .same) :
    Keeps [p, c] [c, p] := by
  have htags : p.tag = .removed ∧ c.tag = .added ∨ p.tag = .added ∧ c.tag = .removed := by
    cases htp : p.tag <;> cases htc : c.tag <;> simp_all
  rcases htags with ⟨htp, htc⟩ | ⟨htp, htc⟩
  all_goals
    refine ⟨by simp [Chunk.old, htp, htc], by simp [Chunk.new, htp, htc], ?_⟩
    intro i j hplaced
    simp [Placed, Chunk.old, Chunk.new, htp, htc] at hplaced ⊢
    exact hplaced.symm

/-- What was said of a chunk and its neighbour before it holds of the script they stand in. -/
theorem keeps_before {p c : Chunk} {m : Script} (ps after : List Chunk) (h : Keeps [p, c] m) :
    Keeps (script ⟨p :: ps, c, after⟩) (ps.reverse ++ m ++ after) := by
  have hscript : script ⟨p :: ps, c, after⟩ = ps.reverse ++ [p, c] ++ after := by simp [script]
  rw [hscript]
  exact (h.append_left ps.reverse).append_right after

theorem keeps_after {c q : Chunk} {m : Script} (before qs : List Chunk) (h : Keeps [c, q] m) :
    Keeps (script ⟨before, c, q :: qs⟩) (before.reverse ++ m ++ qs) := by
  have hscript : script ⟨before, c, q :: qs⟩ = before.reverse ++ [c, q] ++ qs := by simp [script]
  rw [hscript]
  exact (h.append_left before.reverse).append_right qs

theorem slackUp_of_pos {p c : Chunk} (h : 0 < slackUp p c) :
    c.tag = .added ∧ slackUp p c = commonEnd p.lines c.lines := by
  unfold slackUp at h ⊢
  split at h
  · next hc => simp [hc]
  · omega

theorem slackDown_of_pos {q c : Chunk} (h : 0 < slackDown q c) :
    c.tag = .added ∧ slackDown q c = commonStart q.lines c.lines := by
  unfold slackDown at h ⊢
  split at h
  · next hc => simp [hc]
  · omega

theorem keeps_reverse_unless_empty (p : Chunk) (ps : List Chunk) :
    Keeps (ps.reverse ++ [p]) (if p.lines.isEmpty then ps else p :: ps).reverse := by
  split
  · next h => simpa using (keeps_empty p (List.isEmpty_iff.mp h)).append_left ps.reverse
  · rw [List.reverse_cons]
    exact .refl _

theorem keeps_unless_empty (q : Chunk) (qs : List Chunk) :
    Keeps (q :: qs) (if q.lines.isEmpty then qs else q :: qs) := by
  split
  · next h => exact (keeps_empty q (List.isEmpty_iff.mp h)).append_right qs
  · exact .refl _

theorem stepUp?_keeps {f g : Focus} (hstep : f.stepUp? = some g) (hc : f.here.tag ≠ .same) :
    Keeps f.script g.script ∧ g.here.tag = f.here.tag := by
  obtain ⟨before, c, after⟩ := f
  cases before with
  | nil => cases hstep
  | cons p ps =>
    simp only [stepUp?] at hstep
    split at hstep
    · next hp =>
      split at hstep
      · next hslack =>
        obtain ⟨htag, hn⟩ := slackUp_of_pos hslack
        rw [hn] at hstep
        cases hstep
        have hmove := keeps_before ps after (keeps_up hp htag)
        have htidy := (keeps_reverse_unless_empty
          { p with lines := p.lines.take (p.lines.length - commonEnd p.lines c.lines) } ps).append
          ((pushAfter_keeps (p.oldAt + p.lines.length - commonEnd p.lines c.lines)
            (c.newAt + c.lines.length - commonEnd p.lines c.lines)
            (p.lines.drop (p.lines.length - commonEnd p.lines c.lines)) after).cons
          (c.moveUp (commonEnd p.lines c.lines)
            (p.lines.drop (p.lines.length - commonEnd p.lines c.lines) ++
              c.lines.take (c.lines.length - commonEnd p.lines c.lines))))
        rw [List.append_assoc] at hmove htidy
        exact ⟨hmove.trans htidy, rfl⟩
      · split at hstep
        · next hempty =>
          cases hstep
          have hdrop := (keeps_empty p (List.isEmpty_iff.mp hempty)).append_right [c]
          exact ⟨by simpa [script] using keeps_before ps after hdrop, rfl⟩
        · cases hstep
    · next hp =>
      split at hstep
      · next htag =>
        cases hstep
        exact ⟨by simpa [script] using keeps_before ps after (keeps_join htag hc), htag⟩
      · next htag =>
        cases hstep
        exact ⟨by simpa [script] using keeps_before ps after (keeps_swap htag hp hc), rfl⟩

theorem stepDown?_keeps {f g : Focus} (hstep : f.stepDown? = some g) (hc : f.here.tag ≠ .same) :
    Keeps f.script g.script ∧ g.here.tag = f.here.tag := by
  obtain ⟨before, c, after⟩ := f
  cases after with
  | nil => cases hstep
  | cons q qs =>
    simp only [stepDown?] at hstep
    split at hstep
    · next hq =>
      split at hstep
      · next hslack =>
        obtain ⟨htag, hn⟩ := slackDown_of_pos hslack
        rw [hn] at hstep
        cases hstep
        have hmove := keeps_after before qs (keeps_down htag hq)
        have htidy := (pushBefore_keeps q.oldAt c.newAt (q.lines.take (commonStart q.lines c.lines))
          before).append ((keeps_unless_empty (q.moveDown (commonStart q.lines c.lines)
            (q.lines.drop (commonStart q.lines c.lines))) qs).cons
          (c.moveDown (commonStart q.lines c.lines) (c.lines.drop (commonStart q.lines c.lines) ++
            q.lines.take (commonStart q.lines c.lines))))
        rw [List.append_assoc] at hmove htidy
        exact ⟨hmove.trans htidy, rfl⟩
      · split at hstep
        · next hempty =>
          cases hstep
          have hdrop := (keeps_empty q (List.isEmpty_iff.mp hempty)).cons c
          exact ⟨by simpa [script] using keeps_after before qs hdrop, rfl⟩
        · cases hstep
    · next hq =>
      split at hstep
      · next htag =>
        cases hstep
        refine ⟨?_, rfl⟩
        have hq' : q.tag ≠ .same := hq
        simpa [script] using keeps_after before qs (keeps_join htag.symm hq')
      · next htag =>
        cases hstep
        exact ⟨by simpa [script] using keeps_after before qs (keeps_swap (Ne.symm htag) hc hq), rfl⟩

/-- Steps that keep a script may be taken as often as they go. -/
theorem walk_keeps {step : Focus → Option Focus} {walk : Nat → Focus → Focus}
    (hzero : ∀ f, walk 0 f = f)
    (hsucc : ∀ fuel f, walk (fuel + 1) f = match step f with | none => f | some g => walk fuel g)
    (hstep : ∀ f g, step f = some g → f.here.tag ≠ .same →
      Keeps f.script g.script ∧ g.here.tag = f.here.tag)
    (fuel : Nat) (f : Focus) (hc : f.here.tag ≠ .same) :
    Keeps f.script (walk fuel f).script ∧ (walk fuel f).here.tag = f.here.tag := by
  induction fuel generalizing f with
  | zero =>
    rw [hzero]
    exact ⟨.refl _, rfl⟩
  | succ fuel ih =>
    rw [hsucc]
    cases hf : step f with
    | none => exact ⟨.refl _, rfl⟩
    | some g =>
      obtain ⟨hkeeps, htag⟩ := hstep f g hf hc
      obtain ⟨hrest, hrestTag⟩ := ih g (by rw [htag]; exact hc)
      exact ⟨hkeeps.trans hrest, hrestTag.trans htag⟩

theorem up_keeps (fuel : Nat) (f : Focus) (hc : f.here.tag ≠ .same) :
    Keeps f.script (up fuel f).script ∧ (up fuel f).here.tag = f.here.tag :=
  walk_keeps (fun _ => rfl) (fun _ _ => rfl) (fun _ _ h => stepUp?_keeps h) fuel f hc

theorem down_keeps (fuel : Nat) (f : Focus) (hc : f.here.tag ≠ .same) :
    Keeps f.script (down fuel f).script ∧ (down fuel f).here.tag = f.here.tag :=
  walk_keeps (fun _ => rfl) (fun _ _ => rfl) (fun _ _ h => stepDown?_keeps h) fuel f hc

end Focus

theorem settle_keeps {tag : Tag} (htag : tag ≠ .same) (bound fuel : Nat)
    (before after : List Chunk) :
    Keeps (before.reverse ++ after) (settle tag bound fuel before after) := by
  induction fuel generalizing before after with
  | zero => exact .refl _
  | succ fuel ih =>
    cases after with
    | nil =>
      rw [settle, List.append_nil]
      exact .refl _
    | cons c cs =>
      rw [settle]
      split
      · next hc =>
        have hne : c.tag ≠ .same := by rw [hc]; exact htag
        obtain ⟨hup, hupTag⟩ := Focus.up_keeps bound ⟨before, c, cs⟩ hne
        obtain ⟨hdown, -⟩ := Focus.down_keeps bound _ (by rw [hupTag]; exact hne)
        generalize Focus.down bound (Focus.up bound ⟨before, c, cs⟩) = f at hdown ⊢
        have hscript : (f.here :: f.before).reverse ++ f.after = f.script := by simp [Focus.script]
        have hrest := ih (f.here :: f.before) f.after
        rw [hscript] at hrest
        exact (hup.trans hdown).trans hrest
      · have hrest := ih (c :: before) cs
        rwa [List.reverse_cons, List.append_assoc] at hrest

/-- Compacting changes neither text. -/
theorem compact_keeps (s : Script) : Keeps s (compact s) := by
  unfold compact
  exact (settle_keeps (by decide) _ _ [] s).trans (settle_keeps (by decide) _ _ [] _)

end SafeRefactor.Diff
