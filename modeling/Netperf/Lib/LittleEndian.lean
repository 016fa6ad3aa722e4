import Mathlib.Algebra.Group.Nat.Defs
import Mathlib.Data.List.Basic
/-!
# Little-endian numbers

Numbers as bytes, least significant first.
-/

namespace LittleEndian

/-- The low `k` bytes of a number. -/
def put : Nat → Nat → List UInt8
  | 0, _ => []
  | k + 1, n => UInt8.ofNat n :: put k (n / 256)

def get : List UInt8 → Nat
  | [] => 0
  | b :: bs => b.toNat + 256 * get bs

@[simp] theorem put_length (k n : Nat) : (put k n).length = k := by
  induction k generalizing n with
  | zero => rfl
  | succ k ih => simp [put, ih]

theorem get_put {k n : Nat} (h : n < 256 ^ k) : get (put k n) = n := by
  induction k generalizing n with
  | zero =>
    simp only [Nat.pow_zero, Nat.lt_one_iff] at h
    rw [h]
    rfl
  | succ k ih =>
    rw [Nat.pow_succ] at h
    have hrec := ih (n := n / 256) (by omega)
    simp only [put, get, hrec, UInt8.toNat_ofNat']
    omega

theorem get_lt (bs : List UInt8) : get bs < 256 ^ bs.length := by
  induction bs with
  | nil => simp [get]
  | cons b bs ih =>
    have hb := b.toNat_lt
    simp only [get, List.length_cons, Nat.pow_succ]
    omega

theorem put_get (bs : List UInt8) : put bs.length (get bs) = bs := by
  induction bs with
  | nil => rfl
  | cons b bs ih =>
    have hb := b.toNat_lt
    simp only [List.length_cons, put, get]
    have hdiv : (b.toNat + 256 * get bs) / 256 = get bs := by omega
    rw [hdiv, ih]
    congr 1
    apply UInt8.toNat.inj
    simp only [UInt8.toNat_ofNat']
    omega

end LittleEndian
