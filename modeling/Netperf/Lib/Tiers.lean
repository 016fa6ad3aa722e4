import Mathlib.Data.List.Chain
import Mathlib.Data.List.Nodup
import Mathlib.Order.Lattice
/-!
# Tiers

A table of units in growing order, and the unit that a quantity is told in:
the last one that is not above it, or the first one.
-/

namespace Tiers

variable {α β : Type} [LinearOrder α] {size : β → α} {x y : α} {u v : β} {l : List β}

/-- Go up from `u` until the next unit is above `x`. -/
def pick (size : β → α) (x : α) (u : β) : List β → β
  | [] => u
  | v :: l => if x < size v then u else pick size x v l

theorem pick_mem (size : β → α) (x : α) (u : β) (l : List β) : pick size x u l ∈ u :: l := by
  induction l generalizing u with
  | nil => exact List.mem_singleton_self u
  | cons v l ih =>
    unfold pick
    split
    · exact List.mem_cons_self
    · exact List.mem_cons_of_mem u (ih v)

theorem size_pick_le (hu : size u ≤ x) (l : List β) : size (pick size x u l) ≤ x := by
  induction l generalizing u with
  | nil => exact hu
  | cons v l ih =>
    unfold pick
    split
    · exact hu
    · rename_i hv
      exact ih (not_lt.1 hv)

/-- Only the first unit may be above the quantity. -/
theorem pick_eq_or_le (size : β → α) (x : α) (u : β) (l : List β) :
    pick size x u l = u ∨ size (pick size x u l) ≤ x := by
  cases l with
  | nil => exact .inl rfl
  | cons v l =>
    unfold pick
    split
    · exact .inl rfl
    · rename_i hv
      exact .inr (size_pick_le (not_lt.1 hv) l)

/-- No unit between the picked one and the quantity. -/
theorem size_le_pick (h : (u :: l).Pairwise (fun a b => size a < size b)) :
    ∀ w ∈ u :: l, size w ≤ x → size w ≤ size (pick size x u l) := by
  induction l generalizing u with
  | nil =>
    intro w hw _
    rw [List.mem_singleton.1 hw]
    exact le_refl _
  | cons v l ih =>
    intro w hw hx
    obtain ⟨hu, hl⟩ := List.pairwise_cons.1 h
    unfold pick
    split
    · rename_i hv
      rcases List.mem_cons.1 hw with rfl | hw
      · exact le_refl _
      · have hle : size v ≤ size w := by
          rcases List.mem_cons.1 hw with rfl | hw
          · exact le_refl _
          · exact le_of_lt ((List.pairwise_cons.1 hl).1 w hw)
        exact absurd (lt_of_lt_of_le hv hle) (not_lt.2 hx)
    · rename_i hv
      rcases List.mem_cons.1 hw with rfl | hw
      · have hle := ih hl v List.mem_cons_self (not_lt.1 hv)
        exact le_trans (le_of_lt (hu v List.mem_cons_self)) hle
      · exact ih hl w hw hx

/-- A unit that is not above the quantity, or the first one, and that no other one improves on is the picked one. -/
theorem eq_pick (h : (u :: l).Pairwise (fun a b => size a < size b)) {w : β} (hw : w ∈ u :: l)
    (hle : w = u ∨ size w ≤ x) (hmax : ∀ v ∈ u :: l, size v ≤ x → size v ≤ size w) : w = pick size x u l := by
  have hp := pick_mem size x u l
  have hfirst : ∀ v ∈ u :: l, size u ≤ size v := by
    intro v hv
    rcases List.mem_cons.1 hv with rfl | hv
    · exact le_refl _
    · exact le_of_lt ((List.pairwise_cons.1 h).1 v hv)
  have hnodup : ((u :: l).map size).Nodup := (List.pairwise_map.2 h).imp ne_of_lt
  apply List.inj_on_of_nodup_map hnodup hw hp
  apply le_antisymm
  · rcases hle with rfl | hle
    · exact hfirst _ hp
    · exact size_le_pick h w hw hle
  · rcases pick_eq_or_le size x u l with hu | hx
    · rw [hu]
      exact hfirst w hw
    · exact hmax _ hp hx

/-- When each unit reaches up to the next one, the quantity is within reach, but of the last one. -/
theorem lt_reach {reach : β → α} (h : (u :: l).IsChain (fun a b => size b ≤ reach a)) :
    pick size x u l = (u :: l).getLast (List.cons_ne_nil u l) ∨ x < reach (pick size x u l) := by
  induction l generalizing u with
  | nil => exact .inl rfl
  | cons v l ih =>
    obtain ⟨huv, hl⟩ := List.isChain_cons_cons.1 h
    unfold pick
    split
    · rename_i hv
      exact .inr (lt_of_lt_of_le hv huv)
    · rw [List.getLast_cons (List.cons_ne_nil v l)]
      exact ih hl

/-- Two quantities are told in the same unit when no unit above the first is between them. -/
theorem pick_eq_iff (h : (u :: l).Pairwise (fun a b => size a < size b)) :
    pick size x u l = pick size y u l ↔ ∀ w ∈ l, x < size w ↔ y < size w := by
  -- A unit above one quantity and not above the other is missed by the first and reached by the second.
  have hmiss {x y : α} (he : pick size x u l = pick size y u l) : ∀ w ∈ l, x < size w → y < size w := by
    intro w hw hx
    apply not_le.1
    intro hy
    have hle := size_le_pick h w (List.mem_cons_of_mem u hw) hy
    rw [← he] at hle
    rcases pick_eq_or_le size x u l with hu | hp
    · rw [hu] at hle
      exact absurd ((List.pairwise_cons.1 h).1 w hw) (not_lt.2 hle)
    · exact absurd (lt_of_le_of_lt (le_trans hle hp) hx) (lt_irrefl _)
  constructor
  · intro he w hw
    exact ⟨hmiss he w hw, hmiss he.symm w hw⟩
  · clear h hmiss
    intro hsame
    induction l generalizing u with
    | nil => rfl
    | cons v l ih =>
      rw [List.forall_mem_cons] at hsame
      unfold pick
      simp only [hsame.1]
      split
      · rfl
      · exact ih hsame.2

/-- Units beyond the quantity change nothing. -/
theorem pick_append (l : List β) {l' : List β} (h : ∀ w ∈ l', x < size w) :
    pick size x u (l ++ l') = pick size x u l := by
  induction l generalizing u with
  | nil =>
    cases l' with
    | nil => rfl
    | cons v l' => exact if_pos (h v List.mem_cons_self)
  | cons v l ih =>
    rw [List.cons_append]
    unfold pick
    rw [ih]

/-- Only the sizes count. -/
theorem size_pick (size : β → α) (x : α) (u : β) (l : List β) :
    size (pick size x u l) = pick id x (size u) (l.map size) := by
  induction l generalizing u with
  | nil => rfl
  | cons v l ih =>
    rw [List.map_cons]
    unfold pick
    split
    · rename_i hv
      exact (if_pos hv).symm
    · rename_i hv
      rw [ih]
      exact (if_neg hv).symm

end Tiers
