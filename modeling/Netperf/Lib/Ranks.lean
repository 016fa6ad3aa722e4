import Mathlib.Data.List.Sort
import Mathlib.Order.Defs.LinearOrder
/-!
# Ranks in a sorted list

What stands at a place of a sorted list is told by how many entries are below
it, and these counts do not depend on the order of the list that was sorted.
-/

namespace Ranks

section Counts

variable {α : Type} {p : α → Bool} {l : List α} {i : Nat}

/-- When what satisfies `p` comes first, the places that satisfy it are those below their count. -/
theorem lt_countP_iff (h : l.Pairwise fun a b => p b → p a) (hi : i < l.length) : i < l.countP p ↔ p l[i] := by
  induction l generalizing i with
  | nil => simp at hi
  | cons a l ih =>
    obtain ⟨ha, hl⟩ := List.pairwise_cons.1 h
    by_cases hp : p a
    · rw [List.countP_cons_of_pos hp]
      cases i with
      | zero => simp [hp]
      | succ i =>
        rw [Nat.add_lt_add_iff_right, ih hl (by simpa using hi)]
        rfl
    · have hn : ∀ b ∈ l, ¬p b := fun b hb hpb => hp (ha b hb hpb)
      rw [List.countP_cons_of_neg hp, List.countP_eq_zero.2 hn]
      cases i with
      | zero => simp [hp]
      | succ i => simpa using hn _ (List.getElem_mem _)

end Counts

variable {α : Type} [LinearOrder α] {l : List α} {i : Nat}

theorem getElem_le_iff (h : l.Pairwise (· ≤ ·)) (hi : i < l.length) (x : α) :
    l[i] ≤ x ↔ i < l.countP (· ≤ x) := by
  rw [lt_countP_iff (h.imp fun hab hb => by simpa using le_trans hab (by simpa using hb)) hi]
  simp

theorem le_getElem_iff (h : l.Pairwise (· ≤ ·)) (hi : i < l.length) (x : α) :
    x ≤ l[i] ↔ l.countP (· < x) ≤ i := by
  rw [← not_lt, ← not_lt, not_iff_not,
    lt_countP_iff (h.imp fun hab hb => by simpa using lt_of_le_of_lt hab (by simpa using hb)) hi]
  simp

section Sorting

theorem pairwise_sort (l : List Nat) : l.mergeSort.Pairwise (· ≤ ·) :=
  List.pairwise_mergeSort' (· ≤ ·) l

theorem countP_sort (p : Nat → Bool) (l : List Nat) : l.mergeSort.countP p = l.countP p :=
  (List.mergeSort_perm l _).countP_eq p

theorem mem_sort {x : Nat} {l : List Nat} : x ∈ l.mergeSort ↔ x ∈ l :=
  (List.mergeSort_perm l _).mem_iff

/-- Sorting forgets the order. -/
theorem sort_eq_of_perm {l l' : List Nat} (h : l.Perm l') : l.mergeSort = l'.mergeSort := by
  have hp := ((List.mergeSort_perm l (· ≤ ·)).trans h).trans (List.mergeSort_perm l' (· ≤ ·)).symm
  exact hp.eq_of_pairwise' (pairwise_sort l) (pairwise_sort l')

theorem sort_range (n : Nat) : (List.range n).mergeSort = List.range n :=
  List.mergeSort_eq_self (· ≤ ·) (List.pairwise_lt_range.imp Nat.le_of_lt)

end Sorting

end Ranks
