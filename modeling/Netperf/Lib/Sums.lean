import Mathlib.Algebra.BigOperators.Ring.List
import Mathlib.Algebra.GroupWithZero.Nat
import Mathlib.Algebra.Order.BigOperators.Group.List
import Mathlib.Algebra.Order.Ring.Nat
/-!
# Sums along a list

Totals of natural numbers that two ways of counting the same entries give.
-/

namespace Sums

variable {α : Type} {f g : α → Nat} {l : List α}

theorem sum_map_le (h : ∀ a ∈ l, f a ≤ g a) : (l.map f).sum ≤ (l.map g).sum := by
  induction l with
  | nil => exact Nat.le_refl _
  | cons a l ih =>
    rw [List.forall_mem_cons] at h
    rw [List.map_cons, List.map_cons, List.sum_cons, List.sum_cons]
    exact Nat.add_le_add h.1 (ih h.2)

/-- Of two counts that are ordered entry by entry, the totals agree only when all entries do. -/
theorem sum_map_eq_iff (h : ∀ a ∈ l, f a ≤ g a) : (l.map f).sum = (l.map g).sum ↔ ∀ a ∈ l, f a = g a := by
  induction l with
  | nil => simp
  | cons a l ih =>
    rw [List.forall_mem_cons] at h
    have hle := sum_map_le h.2
    rw [List.map_cons, List.map_cons, List.sum_cons, List.sum_cons, List.forall_mem_cons, ← ih h.2]
    omega

theorem countP_pos_le_sum (f : α → Nat) (l : List α) : l.countP (fun a => 0 < f a) ≤ (l.map f).sum := by
  induction l with
  | nil => exact Nat.le_refl _
  | cons a l ih =>
    rw [List.countP_cons, List.map_cons, List.sum_cons]
    split
    · rename_i h
      rw [decide_eq_true_iff] at h
      omega
    · omega

theorem le_sum_map_sub (f : α → Nat) (c : Nat) (l : List α) :
    (l.map f).sum ≤ (l.map (fun a => f a - c)).sum + l.length * c := by
  induction l with
  | nil => exact Nat.zero_le _
  | cons a l ih =>
    rw [List.map_cons, List.map_cons, List.sum_cons, List.sum_cons, List.length_cons, Nat.succ_mul]
    omega

/-! ## Quotients of totals -/

theorem sum_map_pos (hl : l ≠ []) (hg : ∀ a ∈ l, 0 < g a) : 0 < (l.map g).sum := by
  obtain ⟨a, l, rfl⟩ := List.exists_cons_of_ne_nil hl
  have ha := hg a List.mem_cons_self
  rw [List.map_cons, List.sum_cons]
  omega

/-- A total quotient is between the quotients of the entries. -/
theorem le_quotient {m : Nat} (hl : l ≠ []) (hg : ∀ a ∈ l, 0 < g a) (h : ∀ a ∈ l, m ≤ f a / g a) :
    m ≤ (l.map f).sum / (l.map g).sum := by
  have hmul : (l.map (fun a => m * g a)).sum ≤ (l.map f).sum := by
    apply sum_map_le
    intro a ha
    exact (Nat.le_div_iff_mul_le (hg a ha)).1 (h a ha)
  rw [List.sum_map_mul_left] at hmul
  apply (Nat.le_div_iff_mul_le (sum_map_pos hl hg)).2
  exact hmul

theorem quotient_le {m : Nat} (hl : l ≠ []) (hg : ∀ a ∈ l, 0 < g a) (h : ∀ a ∈ l, f a / g a ≤ m) :
    (l.map f).sum / (l.map g).sum ≤ m := by
  have hlt : (l.map f).sum < (l.map (fun a => (m + 1) * g a)).sum := by
    apply List.sum_lt_sum_of_ne_nil hl
    intro a ha
    exact Nat.lt_mul_of_div_lt (Nat.lt_succ_of_le (h a ha)) (hg a ha)
  rw [List.sum_map_mul_left] at hlt
  exact Nat.le_of_lt_succ (Nat.div_lt_of_lt_mul (Nat.mul_comm .. ▸ hlt))

/-! ## Running sums and means -/

/-- A running sum that wraps at every step ends where the sum wraps once. -/
theorem foldl_add_mod {m s : Nat} (hs : s < m) (l : List Nat) :
    l.foldl (fun s x => (s + x) % m) s = (s + l.sum) % m := by
  induction l generalizing s with
  | nil => exact (Nat.mod_eq_of_lt hs).symm
  | cons x l ih =>
    rw [List.foldl_cons, ih (Nat.mod_lt _ (Nat.zero_lt_of_lt hs)), List.sum_cons, Nat.mod_add_mod, Nat.add_assoc]

section
variable {l : List Nat} {a : Nat}

theorem le_mean (hl : l ≠ []) (h : ∀ x ∈ l, a ≤ x) : a ≤ l.sum / l.length := by
  have hle := List.card_nsmul_le_sum l a h
  rw [Nat.nsmul_eq_mul, Nat.mul_comm] at hle
  exact (Nat.le_div_iff_mul_le (List.length_pos_iff.2 hl)).2 hle

theorem mean_le (h : ∀ x ∈ l, x ≤ a) : l.sum / l.length ≤ a := by
  apply Nat.div_le_of_le_mul
  have hle := List.sum_le_card_nsmul l a h
  rwa [Nat.nsmul_eq_mul] at hle

end

end Sums
