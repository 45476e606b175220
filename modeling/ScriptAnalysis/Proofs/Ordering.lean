import Mathlib.Data.List.Sort
import ScriptAnalysis.Ordered

/-!
# Lists that are kept in order

Putting an element in its place adds it to a list and nothing else, and keeps the list in an order
that goes by who may stand before whom. So sorting puts the elements of a list in that order.
-/

namespace ScriptAnalysis.Ordered

variable {α : Type} {R : α → α → Prop} {before : α → α → Bool} {x y : α} {xs : List α}

section

variable (before : α → α → Bool) (x : α) (xs : List α)

theorem insert_eq_orderedInsert :
    insert before x xs = xs.orderedInsert (before · · = true) x := by
  induction xs with
  | nil => rfl
  | cons first xs ih => rw [insert, List.orderedInsert_cons, ih]

theorem sort_eq_insertionSort : sort before xs = xs.insertionSort (before · · = true) := by
  have hinsert : insert before = List.orderedInsert (before · · = true) := by
    funext x xs
    exact insert_eq_orderedInsert before x xs
  rw [sort, hinsert, List.insertionSort]

theorem perm_insert : (insert before x xs).Perm (x :: xs) := by
  rw [insert_eq_orderedInsert]
  exact List.perm_orderedInsert _ x xs

theorem insert_ne_nil : insert before x xs ≠ [] := by
  rw [insert_eq_orderedInsert]
  exact List.ne_nil_of_mem ((List.mem_orderedInsert _).2 (.inl rfl))

theorem perm_sort : (sort before xs).Perm xs := by
  rw [sort_eq_insertionSort]
  exact List.perm_insertionSort _ xs

end

theorem mem_insert : y ∈ insert before x xs ↔ y = x ∨ y ∈ xs := by
  rw [insert_eq_orderedInsert, List.mem_orderedInsert]

/-- An element put in its place keeps a list in an order that goes by who may stand before whom. -/
theorem pairwise_insert (h : xs.Pairwise R) (htrans : ∀ y z, R x y → R y z → R x z)
    (hbefore : ∀ y ∈ xs, before x y = true → R x y)
    (hbehind : ∀ y ∈ xs, before x y = false → R y x) : (insert before x xs).Pairwise R := by
  induction xs with
  | nil => exact List.pairwise_singleton _ _
  | cons first xs ih =>
    obtain ⟨hfirst, hrest⟩ := List.pairwise_cons.1 h
    rw [List.forall_mem_cons] at hbefore hbehind
    rw [insert]
    split
    · next htrue =>
      have hx : R x first := hbefore.1 htrue
      refine List.pairwise_cons.2 ⟨?_, h⟩
      exact List.forall_mem_cons.2 ⟨hx, fun later hlater ↦ htrans _ _ hx (hfirst later hlater)⟩
    · next hfalse =>
      refine List.pairwise_cons.2 ⟨?_, ih hrest hbefore.2 hbehind.2⟩
      intro later hlater
      rcases mem_insert.1 hlater with rfl | hlater
      · exact hbehind.1 (eq_false_of_ne_true hfalse)
      · exact hfirst later hlater

/-- Sorting puts the elements of a list in an order that goes by who may stand before whom, and that
may rest on the order in which they stood before. -/
theorem pairwise_sort_of_pairwise {S : α → α → Prop} (h : xs.Pairwise S)
    (htrans : ∀ x y z, R x y → R y z → R x z)
    (hbefore : ∀ x y, S x y → before x y = true → R x y)
    (hbehind : ∀ x y, before x y = false → R y x) : (sort before xs).Pairwise R := by
  induction xs with
  | nil => exact .nil
  | cons x xs ih =>
    obtain ⟨hx, hxs⟩ := List.pairwise_cons.1 h
    apply pairwise_insert (ih hxs) (htrans x)
    · intro y hy
      exact hbefore x y (hx y ((perm_sort before xs).mem_iff.1 hy))
    · exact fun y _ ↦ hbehind x y

theorem pairwise_sort (htrans : ∀ x y z, R x y → R y z → R x z)
    (hbefore : ∀ x y, before x y = true → R x y) (hbehind : ∀ x y, before x y = false → R y x)
    (xs : List α) : (sort before xs).Pairwise R :=
  pairwise_sort_of_pairwise (S := fun _ _ ↦ True) (List.pairwise_of_forall fun _ _ ↦ trivial)
    htrans (fun x y _ ↦ hbefore x y) hbehind

end ScriptAnalysis.Ordered
