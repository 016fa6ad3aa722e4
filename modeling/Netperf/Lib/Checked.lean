import Mathlib.Data.List.Basic
/-!
# Checked arithmetic

Operations that fail when their result is not below a bound, and folds whose
steps may fail.
-/

namespace Checked

def add (bound a b : Nat) : Option Nat := if a + b < bound then some (a + b) else none

def mul (bound a b : Nat) : Option Nat := if a * b < bound then some (a * b) else none

section
variable {bound a b c : Nat}

/-- What succeeds gives what the wrapping operation gives. -/
theorem add_eq_some : add bound a b = some c ↔ a + b < bound ∧ c = (a + b) % bound := by
  unfold add
  split
  · rename_i h
    rw [Nat.mod_eq_of_lt h]
    simp [h, eq_comm]
  · rename_i h
    simp [h]

theorem mul_eq_some : mul bound a b = some c ↔ a * b < bound ∧ c = a * b % bound := by
  unfold mul
  split
  · rename_i h
    rw [Nat.mod_eq_of_lt h]
    simp [h, eq_comm]
  · rename_i h
    simp [h]

end

/-! ## Folds

`next` is the step when nothing fails, and `fits l s` what must hold of the
state `s` for the entries `l` to go through.
-/

section
variable {σ α : Type} {step : σ → α → Option σ} {next : σ → α → σ} {inv : σ → Prop} {fits : List α → σ → Prop}
  {l : List α} {s s' : σ}

theorem foldlM_eq (hnext : ∀ s a s', step s a = some s' → s' = next s a) (h : l.foldlM step s = some s') :
    s' = l.foldl next s := by
  induction l generalizing s with
  | nil =>
    cases h
    rfl
  | cons a l ih =>
    rw [List.foldlM_cons] at h
    obtain ⟨t, ht, h⟩ := Option.bind_eq_some_iff.1 h
    rw [hnext s a t ht] at h
    exact ih h

/-- What holds for one more entry when its step succeeds and the rest fits tells when a fold succeeds. -/
theorem foldlM_eq_some_iff (hnext : ∀ s a s', step s a = some s' → s' = next s a)
    (hinv : ∀ s a, inv s → inv (next s a)) (hnil : ∀ s, inv s → fits [] s)
    (hcons : ∀ s a l, inv s → (fits (a :: l) s ↔ step s a = some (next s a) ∧ fits l (next s a))) (hs : inv s) :
    l.foldlM step s = some (l.foldl next s) ↔ fits l s := by
  induction l generalizing s with
  | nil => exact iff_of_true rfl (hnil s hs)
  | cons a l ih =>
    rw [hcons s a l hs, ← ih (hinv s a hs), List.foldlM_cons, List.foldl_cons]
    cases hstep : step s a with
    | none => simp
    | some t =>
      obtain rfl := hnext s a t hstep
      simp

end

end Checked
