import SafeRefactor.Proofs.Surroundings

/-!
# Searches through a tree

Every tour of a tree ends. On the way its record is that of the level it is on, so it never goes
astray; and if below the nodes that it does not go into there is nothing to stop at, it ends at the
first place of the whole tree that stops it, in document order.
-/

set_option autoImplicit false

namespace SafeRefactor.Syntax.Tour

open Cursor

variable {ρ : Type} {t : Tour ρ} {s s' : State ρ}

/-- What every step preserves holds after any number of steps. -/
theorem after_keeps {motive : State ρ → Prop} (step : ∀ s s', Move t s s' → motive s → motive s')
    (h : motive s) (n : Nat) : motive (t.after n s) := by
  induction n generalizing s with
  | zero => exact h
  | succ n ih =>
    rw [after]
    apply ih
    by_cases hover : s.isOver = true
    · rwa [step_of_isOver hover]
    · exact step _ _ (step_move (by simpa using hover)) h

theorem isOver_after (n : Nat) (h : s.cost ≤ n) : (t.after n s).isOver = true := by
  induction n generalizing s with
  | zero => exact cost_eq_zero_iff.mp (Nat.le_zero.mp h)
  | succ n ih =>
    rw [after]
    by_cases hover : s.isOver = true
    · have hcost := cost_eq_zero_iff.mpr hover
      rw [step_of_isOver hover]
      exact ih (by omega)
    · have hless : (t.step s).cost < s.cost := (step_move (by simpa using hover)).cost_lt
      exact ih (by omega)

/-- Every tour ends. -/
theorem isOver_result (t : Tour ρ) (root : Node) : (t.result root).isOver = true :=
  isOver_after _ (Nat.le_of_eq (t.cost_outset root))

/-- The record on a level. -/
def recordAt (t : Tour ρ) : Nat → ρ
  | 0 => t.start
  | level + 1 => t.down (t.recordAt level)

/-- The record in a state is that of the level of the cursor, and the tour has not gone astray. -/
def State.Kept (t : Tour ρ) : State ρ → Prop
  | .arriving r c | .leaving r c => r = t.recordAt c.depth
  | .astray => False
  | _ => True

/-- The record on a level below the root was made by a move down from the level above, and a move up
takes that back. -/
theorem up_of_kept {r : ρ} {n : Node} {f : Frame} {fs : List Frame}
    (hk : (State.leaving r ⟨n, f :: fs⟩).Kept t) : t.up r = some (t.recordAt fs.length) := by
  rw [show r = t.down (t.recordAt fs.length) from hk, t.up_down]

theorem Move.kept (h : Move t s s') (hk : s.Kept t) : s'.Kept t := by
  cases h with
  | stop | finish => trivial
  | down => exact congrArg t.down hk
  | turn | on => exact hk
  | up hu => exact Option.some.inj (hu.symm.trans (up_of_kept hk))
  | lose hu => cases hu.symm.trans (up_of_kept hk)

theorem kept_after (t : Tour ρ) (root : Node) (n : Nat) : (t.after n (t.outset root)).Kept t :=
  after_keeps (motive := State.Kept t) (s := t.outset root) (fun _ _ h hk => h.kept hk) rfl n

/-- What is ahead gets less and less from its front. -/
theorem Move.ahead_suffix (h : Move t s s') : s'.ahead <:+ s.ahead := by
  cases h with
  | stop | lose | finish => exact List.nil_suffix
  | down hs he hc =>
    simp only [State.ahead, sitesUnder_eq, pending, sitesAmong, hc, List.cons_append,
      List.append_assoc]
    exact List.suffix_cons _ _
  | turn => exact List.suffix_append _ _
  | on | up => simp [State.ahead, pending, sitesAmong]

/-- Whether a place stops a tour. -/
def wants (t : Tour ρ) (c : Cursor) : Bool := t.stops (t.recordAt c.depth) c.node

theorem wants_of_kept {r : ρ} {n : Node} {fs : List Frame}
    (hk : (State.arriving r ⟨n, fs⟩).Kept t) :
    t.wants ⟨n, fs⟩ = t.stops r n := by
  rw [wants, ← show r = t.recordAt (Cursor.mk n fs).depth from hk]

/-- Nothing that stops the tour lies below a node of the tree that it neither stops at nor goes
into. -/
def Thorough (t : Tour ρ) (root : Node) : Prop :=
  ∀ c ∈ sites root, t.wants c = false → t.enters c.node = false →
    ∀ d ∈ sitesAmong c.node c.frames c.node.children, t.wants d = false

/-- The place at which a tour stops, if it passes over none that stops it. -/
def State.stop? (t : Tour ρ) : State ρ → Option Cursor
  | .stopped c => some c
  | s => s.ahead.find? t.wants

theorem Move.stop?_eq {root : Node} (ht : t.Thorough root) (h : Move t s s') (hk : s.Kept t)
    (hahead : s.ahead <:+ sites root) : s'.stop? t = s.stop? t := by
  have hkept := h.kept hk
  cases h with
  | stop hs => simp [State.stop?, State.ahead, sitesUnder_eq, wants_of_kept hk, hs]
  | down hs he hc =>
    simp [State.stop?, State.ahead, sitesUnder_eq, pending, sitesAmong, wants_of_kept hk, hs, hc]
  | @turn r n fs hs he =>
    -- The only step that passes over places: those below a node that the tour does not go into.
    have hbelow : ∀ d ∈ sitesAmong n fs n.children, t.wants d = false := by
      rcases he with he | hc
      · have hmem : ⟨n, fs⟩ ∈ sites root := hahead.subset (by simp [State.ahead, sitesUnder_eq])
        exact ht _ hmem (by rw [wants_of_kept hk, hs]) he
      · simp [hc, sitesAmong]
    have hnone : (sitesAmong n fs n.children).find? t.wants = none := by simpa using hbelow
    simp [State.stop?, State.ahead, sitesUnder_eq, wants_of_kept hk, hs, hnone]
  | on | up | finish => simp [State.stop?, State.ahead, pending, sitesAmong]
  | lose => cases hkept

/-- A tour on its way has ruled out what is no longer ahead of it. -/
structure State.OnTrack (t : Tour ρ) (root : Node) (s : State ρ) : Prop where
  kept : s.Kept t
  ahead : s.ahead <:+ sites root
  stop : s.stop? t = (sites root).find? t.wants

theorem Move.onTrack {root : Node} (ht : t.Thorough root) (h : Move t s s')
    (hs : s.OnTrack t root) :
    s'.OnTrack t root where
  kept := h.kept hs.kept
  ahead := h.ahead_suffix.trans hs.ahead
  stop := (h.stop?_eq ht hs.kept hs.ahead).trans hs.stop

theorem onTrack_outset (t : Tour ρ) (root : Node) : (t.outset root).OnTrack t root := by
  have hahead : (t.outset root).ahead = sites root := by
    simp [outset, ofRoot, State.ahead, pending, sites_eq]
  refine ⟨rfl, hahead ▸ List.suffix_rfl, ?_⟩
  rw [← hahead]
  rfl

theorem onTrack_after {root : Node} (ht : t.Thorough root) (n : Nat) :
    (t.after n (t.outset root)).OnTrack t root :=
  after_keeps (motive := State.OnTrack t root) (fun _ _ h hs => h.onTrack ht hs)
    (t.onTrack_outset root) n

/-- A tour that passes over nothing that stops it ends at the first place of the tree that does. -/
theorem result_eq {root : Node} (ht : t.Thorough root) : t.result root =
    match (sites root).find? t.wants with
    | some c => .stopped c
    | none => .finished := by
  have hover := t.isOver_result root
  obtain ⟨hkept, -, hstop⟩ : (t.result root).OnTrack t root := onTrack_after ht (bound root)
  rw [← hstop]
  cases hr : t.result root with
  | arriving | leaving =>
    rw [hr] at hover
    cases hover
  | stopped | finished => rfl
  | astray =>
    rw [hr] at hkept
    cases hkept

/-- The full tour comes to its end without a stop. -/
theorem full_result (root : Node) : full.result root = .finished := by
  have hnone : (sites root).find? full.wants = none := List.find?_eq_none.mpr fun _ _ =>
    Bool.false_ne_true
  rw [result_eq (fun _ _ _ henters => by cases henters), hnone]

end SafeRefactor.Syntax.Tour

namespace SafeRefactor.Syntax.Tree

/-- The full tour of a tree ends, and on its way it visits the places that the recursion lists, each
once and in the same order. So the names of a tree are those of its root, and its function
definitions are listed once each in document order. -/
theorem tour_agrees (t : Tree) :
    Tour.full.result t.root = .finished ∧ t.sites = Cursor.sitesUnder [] t.root ∧ t.sites.Nodup ∧
      t.nodes = t.root.preorder ∧ t.names = t.namesOf t.root ∧ t.functions.Nodup ∧
      t.functions.map (·.node) = t.root.preorder.filter (·.has .functionDefinition) := by
  refine ⟨Tour.full_result t.root, Cursor.sites_eq t.root, t.sites_nodup, t.nodes_eq_preorder, ?_,
    t.sites_nodup.filter _, t.functions_nodes⟩
  rw [names, namesOf, t.nodes_eq_preorder]

end SafeRefactor.Syntax.Tree
