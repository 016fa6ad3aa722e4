import Mathlib.Data.List.Basic
/-!
# Pipes

One direction of a connection: what was written into it, and what was taken out
of it so far, in order and without loss. A reader sees the end when the writer
has closed and everything is taken out.
-/

namespace Pipes

structure Pipe (α : Type) where
  written : List α
  taken : List α
  closed : Bool
  ordered : taken <+: written

namespace Pipe
variable {α : Type} (p : Pipe α)

def empty : Pipe α := ⟨[], [], false, List.prefix_rfl⟩

/-- What has not been taken out yet. -/
def rest : List α := p.written.drop p.taken.length

theorem taken_append_rest : p.taken ++ p.rest = p.written := by
  obtain ⟨back, hback⟩ := p.ordered
  unfold rest
  rw [← hback, List.drop_left]

def write (as : List α) : Pipe α :=
  { p with written := p.written ++ as, ordered := p.ordered.trans (List.prefix_append _ _) }

/-- Closes it, if now is the time. -/
def close (now : Bool) : Pipe α := { p with closed := p.closed || now }

/-- The next `n` are taken out, in whatever pieces they came. -/
def read (n : Nat) : Pipe α :=
  { p with
    taken := p.taken ++ p.rest.take n
    ordered := by
      conv_rhs => rw [← p.taken_append_rest]
      exact (List.prefix_append_right_inj _).2 (List.take_prefix _ _) }

/-- What a read may yield: some of the rest, or at the end nothing. -/
def yields (n : Nat) : Bool := n ≤ p.rest.length ∧ (n = 0 → p.closed ∧ p.rest.length = 0)

@[simp] theorem write_closed (as : List α) : (p.write as).closed = p.closed := rfl
@[simp] theorem write_taken (as : List α) : (p.write as).taken = p.taken := rfl
@[simp] theorem write_written (as : List α) : (p.write as).written = p.written ++ as := rfl
@[simp] theorem close_closed (now : Bool) : (p.close now).closed = (p.closed || now) := rfl
@[simp] theorem close_taken (now : Bool) : (p.close now).taken = p.taken := rfl
@[simp] theorem close_written (now : Bool) : (p.close now).written = p.written := rfl
@[simp] theorem read_closed (n : Nat) : (p.read n).closed = p.closed := rfl
@[simp] theorem read_taken (n : Nat) : (p.read n).taken = p.taken ++ p.rest.take n := rfl
@[simp] theorem read_written (n : Nat) : (p.read n).written = p.written := rfl

theorem rest_write (as : List α) : (p.write as).rest = p.rest ++ as := by
  have h := (p.write as).taken_append_rest
  rw [write_written, write_taken, ← p.taken_append_rest, List.append_assoc] at h
  exact List.append_cancel_left h

theorem rest_read (n : Nat) : (p.read n).rest = p.rest.drop n := by
  have h := (p.read n).taken_append_rest
  rw [read_written, read_taken, ← p.taken_append_rest, List.append_assoc] at h
  conv_rhs at h => rw [← List.take_append_drop n p.rest]
  exact List.append_cancel_left (List.append_cancel_left h)

@[simp] theorem rest_close (now : Bool) : (p.close now).rest = p.rest := rfl

variable {p} {n : Nat}

theorem yields_le (h : p.yields n = true) : (p.rest.take n).length = n := by
  simp only [yields, decide_eq_true_eq] at h
  rw [List.length_take]
  omega

/-- At the end everything was taken out. -/
theorem yields_end (h : p.yields 0 = true) : p.closed = true ∧ p.taken = p.written := by
  simp only [yields, decide_eq_true_eq, forall_const] at h
  obtain ⟨-, hc, hr⟩ := h
  refine ⟨hc, ?_⟩
  conv_rhs => rw [← p.taken_append_rest, List.length_eq_zero_iff.1 hr]
  rw [List.append_nil]

end Pipe

end Pipes
