import Mathlib.Data.List.Sort
import SafeRefactor.Sort

/-!
# The stable sort

`sortBy` is insertion sort: it keeps every element and, for a total preorder, puts them in order
without swapping elements that already stand in order. A list made of blocks that stand in order is
sorted block by block.
-/

set_option autoImplicit false

namespace SafeRefactor

variable {α : Type}

theorem insertBy_eq_orderedInsert (le : α → α → Bool) (a : α) (xs : List α) :
    insertBy le a xs = xs.orderedInsert (fun x y => le x y = true) a := by
  induction xs with
  | nil => rfl
  | cons b xs ih =>
    rw [insertBy, List.orderedInsert_cons, ih]

theorem sortBy_eq_insertionSort (le : α → α → Bool) (xs : List α) :
    sortBy le xs = xs.insertionSort fun x y => le x y = true := by
  induction xs with
  | nil => rfl
  | cons a xs ih => rw [sortBy, List.insertionSort_cons, ih, insertBy_eq_orderedInsert]

theorem sortBy_perm (le : α → α → Bool) (xs : List α) : (sortBy le xs).Perm xs := by
  rw [sortBy_eq_insertionSort]
  exact List.perm_insertionSort _ xs

@[simp]
theorem mem_sortBy (le : α → α → Bool) (xs : List α) (a : α) : a ∈ sortBy le xs ↔ a ∈ xs :=
  (sortBy_perm le xs).mem_iff

theorem sortBy_pairwise (le : α → α → Bool) (total : ∀ a b, le a b = true ∨ le b a = true)
    (trans : ∀ a b c, le a b = true → le b c = true → le a c = true) (xs : List α) :
    (sortBy le xs).Pairwise fun a b => le a b = true := by
  have : Std.Total fun a b => le a b = true := ⟨total⟩
  have : IsTrans α fun a b => le a b = true := ⟨trans⟩
  rw [sortBy_eq_insertionSort]
  exact List.pairwise_insertionSort _ xs

/-- The second list is the first one put in order, and whatever stood in order in the first still
stands in that order. -/
structure StablySorted (le : α → α → Bool) (xs sorted : List α) : Prop where
  perm : sorted.Perm xs
  ordered : sorted.Pairwise fun a b => le a b = true
  stable : ∀ part : List α, part.Sublist xs → (part.Pairwise fun a b => le a b = true) →
    part.Sublist sorted

theorem sortBy_stablySorted (le : α → α → Bool) (total : ∀ a b, le a b = true ∨ le b a = true)
    (trans : ∀ a b c, le a b = true → le b c = true → le a c = true) (xs : List α) :
    StablySorted le xs (sortBy le xs) where
  perm := sortBy_perm le xs
  ordered := sortBy_pairwise le total trans xs
  stable part hpart hordered := by
    rw [sortBy_eq_insertionSort]
    exact List.sublist_insertionSort hordered hpart

theorem insertBy_append (le : α → α → Bool) (a : α) (xs ys : List α) (h : ∀ y ∈ ys, le a y = true) :
    insertBy le a (xs ++ ys) = insertBy le a xs ++ ys := by
  induction xs with
  | nil =>
    cases ys with
    | nil => rfl
    | cons y ys => simp [insertBy, h y]
  | cons x xs ih =>
    rw [List.cons_append, insertBy, insertBy]
    split
    · rfl
    · rw [ih, List.cons_append]

/-- Blocks that stand in order are sorted one by one. -/
theorem sortBy_append (le : α → α → Bool) (xs ys : List α) (h : ∀ x ∈ xs, ∀ y ∈ ys, le x y = true) :
    sortBy le (xs ++ ys) = sortBy le xs ++ sortBy le ys := by
  induction xs with
  | nil => rfl
  | cons x xs ih =>
    have hx : ∀ y ∈ sortBy le ys, le x y = true := by
      intro y hy
      exact h x (by simp) y ((mem_sortBy le ys y).mp hy)
    rw [List.cons_append, sortBy, sortBy, ih fun a ha => h a (by simp [ha]),
      insertBy_append le x _ _ hx]

theorem map_sortBy {β : Type} (le : α → α → Bool) (le' : β → β → Bool) (f : α → β)
    (h : ∀ a b, le' (f a) (f b) = le a b) (xs : List α) :
    (sortBy le xs).map f = sortBy le' (xs.map f) := by
  rw [sortBy_eq_insertionSort, sortBy_eq_insertionSort]
  apply List.map_insertionSort
  intro a _ b _
  rw [h]

end SafeRefactor
