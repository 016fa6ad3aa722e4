import Mathlib.Algebra.Group.Nat.Defs
import Mathlib.Algebra.GroupWithZero.Nat
import Netperf.Control
import Netperf.Lib.Ranks
/-!
# Percentiles

`Dist::from_samples` of `netperf-core`, on the build target, whose `usize` has
32 bits and wraps in a release build.
-/

namespace Netperf

def nsPerMilli : Nat := 1000000

def nsPerSec : Nat := 1000000000

/-- `usize` on the build target. -/
def usizeSize : Nat := 2 ^ 32

def u64Size : Nat := 2 ^ 64

/-- `isize::MAX`, the most bytes an allocation can have. -/
def isizeMax : Nat := 2 ^ 31 - 1

def Dist.default : Dist := ⟨0, 0, 0, 0, 0, 0, 0⟩

/-- Exact percentiles by sorting the raw samples. -/
def Dist.fromSamples (v : List Nat) : Dist :=
  if v.isEmpty then .default
  else
    let v := v.mergeSort
    let n := v.length
    let pct (p : Nat) : Nat :=
      let rank := (p * n % usizeSize + 99) / 100
      v.getD (Nat.min (rank - 1) (n - 1)) 0
    { count := n
      min := v.getD 0 0
      p50 := pct 50
      p90 := pct 90
      p99 := pct 99
      p100 := v.getD (n - 1) 0
      mean := v.sum / n }

/-! ## Nearest-rank percentiles

What the percentiles are meant to be, in unbounded integers, and what becomes
of them when `p * n` wraps.
-/

variable {v : List Nat} {p n r : Nat}

/-- The sample at a rank counted from 1. -/
def sampleAt (v : List Nat) (r : Nat) : Nat := v.mergeSort.getD (r - 1) 0

/-- The smallest rank that covers `p` percent of the samples. -/
def nearestRank (v : List Nat) (p : Nat) : Nat := (p * v.length + 99) / 100

/-- The rank that a 32-bit `p * n` gives. -/
def wrappedRank (v : List Nat) (p : Nat) : Nat := max ((p * v.length % usizeSize + 99) / 100) 1

/-- At least `p` percent of the samples are at most `x`, fewer are below it. -/
def Covers (v : List Nat) (p x : Nat) : Prop :=
  p * v.length ≤ 100 * v.countP (· ≤ x) ∧ 100 * v.countP (· < x) < p * v.length

/-- One value has all the ranks from `a` to `b`. -/
def OneValue (v : List Nat) (a b : Nat) : Prop := ∃ x, v.countP (· < x) < a ∧ b ≤ v.countP (· ≤ x)

structure Dist.Exact (d : Dist) (v : List Nat) : Prop where
  p50 : d.p50 = sampleAt v (nearestRank v 50)
  p90 : d.p90 = sampleAt v (nearestRank v 90)
  p99 : d.p99 = sampleAt v (nearestRank v 99)
  covers50 : Covers v 50 d.p50
  covers90 : Covers v 90 d.p90
  covers99 : Covers v 99 d.p99
  ordered : d.min ≤ d.p50 ∧ d.p50 ≤ d.p90 ∧ d.p90 ≤ d.p99 ∧ d.p99 ≤ d.p100

theorem wrappedRank_pos : 0 < wrappedRank v p := by
  unfold wrappedRank
  omega

theorem nearestRank_pos (h : v ≠ []) (hp : 0 < p) : 0 < nearestRank v p := by
  have hn := Nat.mul_pos hp (List.length_pos_iff.2 h)
  unfold nearestRank
  omega

theorem nearestRank_le (hp : p ≤ 100) : nearestRank v p ≤ v.length := by
  have hn := Nat.mul_le_mul_right v.length hp
  unfold nearestRank
  omega

theorem wrappedRank_le (h : v ≠ []) (hp : 0 < p) : wrappedRank v p ≤ nearestRank v p := by
  apply Nat.max_le.2
  constructor
  · have hm := Nat.mod_le (p * v.length) usizeSize
    unfold nearestRank
    omega
  · exact nearestRank_pos h hp

theorem wrappedRank_eq (h : v ≠ []) (hp : 0 < p) (hn : p * v.length < usizeSize) :
    wrappedRank v p = nearestRank v p := by
  have hpos := nearestRank_pos h hp
  unfold wrappedRank
  rw [Nat.mod_eq_of_lt hn]
  exact Nat.max_eq_left hpos

theorem sampleAt_eq (hr : r - 1 < v.mergeSort.length) : sampleAt v r = v.mergeSort[r - 1] := by
  unfold sampleAt
  rw [List.getD_eq_getElem?_getD, List.getElem?_eq_getElem hr]
  rfl

theorem sampleAt_le_iff (hr : r - 1 < v.length) (x : Nat) : sampleAt v r ≤ x ↔ r - 1 < v.countP (· ≤ x) := by
  rw [← List.length_mergeSort (l := v)] at hr
  rw [sampleAt_eq hr, ← Ranks.countP_sort]
  exact Ranks.getElem_le_iff (Ranks.pairwise_sort v) hr x

theorem le_sampleAt_iff (hr : r - 1 < v.length) (x : Nat) : x ≤ sampleAt v r ↔ v.countP (· < x) ≤ r - 1 := by
  rw [← List.length_mergeSort (l := v)] at hr
  rw [sampleAt_eq hr, ← Ranks.countP_sort]
  exact Ranks.le_getElem_iff (Ranks.pairwise_sort v) hr x

theorem sampleAt_mono {a b : Nat} (hab : a ≤ b) (hb : b - 1 < v.length) : sampleAt v a ≤ sampleAt v b := by
  rw [sampleAt_le_iff (by omega)]
  have hle := (sampleAt_le_iff hb _).1 (Nat.le_refl _)
  omega

/-- The sample at the nearest rank covers its percentage. -/
theorem covers_sampleAt (h : v ≠ []) (hp : 0 < p) (hp' : p ≤ 100) : Covers v p (sampleAt v (nearestRank v p)) := by
  have hpos := nearestRank_pos h hp
  have hlt : nearestRank v p - 1 < v.length := by have := nearestRank_le (v := v) hp'; omega
  have hle := (sampleAt_le_iff hlt _).1 (Nat.le_refl _)
  have hge := (le_sampleAt_iff hlt _).1 (Nat.le_refl _)
  unfold nearestRank at *
  constructor <;> omega

theorem sampleAt_eq_iff {a b : Nat} (ha : 0 < a) (hab : a ≤ b) (hb : b ≤ v.length) :
    sampleAt v a = sampleAt v b ↔ OneValue v a b := by
  constructor
  · intro he
    refine ⟨sampleAt v a, ?_, ?_⟩
    · have hge := (le_sampleAt_iff (r := a) (by omega) _).1 (Nat.le_refl (sampleAt v a))
      omega
    · have hle := (sampleAt_le_iff (r := b) (by omega) _).1 (Nat.le_of_eq he.symm)
      omega
  · rintro ⟨x, hlo, hhi⟩
    apply Nat.le_antisymm (sampleAt_mono hab (by omega))
    have hb : sampleAt v b ≤ x := (sampleAt_le_iff (by omega) x).2 (by omega)
    exact Nat.le_trans hb ((le_sampleAt_iff (by omega) x).2 (by omega))

/-- The index of a percentile, which is kept inside the samples anyway. -/
theorem min_index_eq (h : v ≠ []) (hp : p ≤ 100) :
    Nat.min ((p * v.length % usizeSize + 99) / 100 - 1) (v.length - 1) = wrappedRank v p - 1 := by
  change min _ _ = _
  have hn : 0 < v.length := List.length_pos_iff.2 h
  have hm := Nat.mod_le (p * v.length) usizeSize
  have hm' := Nat.mul_le_mul_right v.length hp
  unfold wrappedRank
  omega

/-- The samples `from_samples` picks are those at the wrapped ranks. -/
theorem fromSamples_eq (h : v ≠ []) :
    Dist.fromSamples v = {
      count := v.length
      min := sampleAt v 1
      p50 := sampleAt v (wrappedRank v 50)
      p90 := sampleAt v (wrappedRank v 90)
      p99 := sampleAt v (wrappedRank v 99)
      p100 := sampleAt v v.length
      mean := v.sum / v.length } := by
  have hpct (p : Nat) (hp : p ≤ 100) := min_index_eq h hp
  unfold Dist.fromSamples
  rw [if_neg (by simpa using h)]
  have hsum : v.mergeSort.sum = v.sum := (List.mergeSort_perm v _).sum_nat
  simp only [List.length_mergeSort, hpct 50 (by omega), hpct 90 (by omega), hpct 99 (by omega), hsum]
  rfl

/-- A percentile is exact unless its product wraps, and then only when one value has all the ranks in between. -/
theorem sampleAt_wrappedRank_iff (h : v ≠ []) (hp : 0 < p) (hp' : p ≤ 100) :
    sampleAt v (wrappedRank v p) = sampleAt v (nearestRank v p) ↔
      (usizeSize ≤ p * v.length → OneValue v (wrappedRank v p) (nearestRank v p)) := by
  rw [sampleAt_eq_iff wrappedRank_pos (wrappedRank_le h hp) (nearestRank_le hp')]
  by_cases hn : p * v.length < usizeSize
  · have heq := wrappedRank_eq h hp hn
    have hsame : OneValue v (wrappedRank v p) (nearestRank v p) := by
      rw [← sampleAt_eq_iff wrappedRank_pos (wrappedRank_le h hp) (nearestRank_le hp'), heq]
    exact ⟨fun _ _ => hsame, fun _ => hsame⟩
  · exact ⟨fun hv _ => hv, fun hv => hv (by omega)⟩

/-- The percentiles of `Dist` that have a rank. -/
def percentiles : List Nat := [50, 90, 99]

theorem fromSamples_exact_iff (h : v ≠ []) :
    (Dist.fromSamples v).Exact v ↔
      ∀ p ∈ percentiles, usizeSize ≤ p * v.length → OneValue v (wrappedRank v p) (nearestRank v p) := by
  rw [fromSamples_eq h]
  constructor
  · intro he p hp
    simp only [percentiles, List.mem_cons, List.not_mem_nil, or_false] at hp
    rcases hp with rfl | rfl | rfl
    · exact (sampleAt_wrappedRank_iff h (by omega) (by omega)).1 he.p50
    · exact (sampleAt_wrappedRank_iff h (by omega) (by omega)).1 he.p90
    · exact (sampleAt_wrappedRank_iff h (by omega) (by omega)).1 he.p99
  · intro hone
    have h50 := (sampleAt_wrappedRank_iff h (by omega) (by omega)).2 (hone 50 (by decide))
    have h90 := (sampleAt_wrappedRank_iff h (by omega) (by omega)).2 (hone 90 (by decide))
    have h99 := (sampleAt_wrappedRank_iff h (by omega) (by omega)).2 (hone 99 (by decide))
    have hn : 0 < v.length := List.length_pos_iff.2 h
    have hmono {a b : Nat} (hab : a ≤ b) (hb : b ≤ v.length) := sampleAt_mono (v := v) hab (by omega)
    constructor
    · exact h50
    · exact h90
    · exact h99
    · simpa only [h50] using covers_sampleAt h (by omega) (by omega)
    · simpa only [h90] using covers_sampleAt h (by omega) (by omega)
    · simpa only [h99] using covers_sampleAt h (by omega) (by omega)
    · simp only [h50, h90, h99]
      have h99' := nearestRank_le (v := v) (p := 99) (by omega)
      refine ⟨hmono ?_ ?_, hmono ?_ ?_, hmono ?_ ?_, hmono h99' (Nat.le_refl _)⟩ <;> unfold nearestRank <;> omega

theorem fromSamples_exact_of_three : (Dist.fromSamples [30, 10, 20]).Exact [30, 10, 20] :=
  (fromSamples_exact_iff (by decide)).2 fun p hp hn => by
    exfalso
    simp only [percentiles, List.mem_cons, List.not_mem_nil, or_false] at hp
    rcases hp with rfl | rfl | rfl <;> revert hn <;> decide

/-! ## Where the 99th percentile goes wrong

The samples `0, …, n - 1`, each at its own place.
-/

theorem sampleAt_range (hr : r - 1 < n) : sampleAt (List.range n) r = r - 1 := by
  unfold sampleAt
  rw [Ranks.sort_range, List.getD_eq_getElem?_getD, List.getElem?_range hr]
  rfl

theorem fromSamples_range_p99 (hn : 0 < n) :
    (Dist.fromSamples (List.range n)).p99 = wrappedRank (List.range n) 99 - 1 := by
  have hne : List.range n ≠ [] := by
    rw [Ne, List.range_eq_nil]
    omega
  have hle : wrappedRank (List.range n) 99 ≤ n := by
    have h := Nat.le_trans (wrappedRank_le hne (by omega)) (nearestRank_le (p := 99) (by omega))
    rwa [List.length_range] at h
  rw [fromSamples_eq hne]
  exact sampleAt_range (by omega)

theorem sampleAt_range_nearest (hn : 0 < n) :
    sampleAt (List.range n) (nearestRank (List.range n) 99) = (99 * n + 99) / 100 - 1 := by
  unfold nearestRank
  rw [List.length_range, sampleAt_range (by omega)]

/-- The first length at which `99 * n` leaves 32 bits: the rank wraps and the percentile is the minimum. -/
theorem fromSamples_range_wraps (hn : n = 43383509) :
    List.range n ≠ [] ∧ 8 * (List.range n).length < 2 ^ 31 ∧ (Dist.fromSamples (List.range n)).p99 = 0 ∧
      sampleAt (List.range n) (nearestRank (List.range n) 99) = 42949673 := by
  have hlen : (List.range n).length = n := List.length_range
  refine ⟨?_, ?_, ?_, ?_⟩
  · rw [Ne, List.range_eq_nil]
    omega
  · omega
  · rw [fromSamples_range_p99 (by omega)]
    unfold wrappedRank usizeSize
    omega
  · rw [sampleAt_range_nearest (by omega)]
    omega

theorem fromSamples_not_exact :
    List.range 43383509 ≠ [] ∧ 8 * (List.range 43383509).length < 2 ^ 31 ∧
      (Dist.fromSamples (List.range 43383509)).p99 = 0 ∧
      sampleAt (List.range 43383509) (nearestRank (List.range 43383509) 99) = 42949673 ∧
      ¬(Dist.fromSamples (List.range 43383509)).Exact (List.range 43383509) := by
  obtain ⟨hne, hlen, h0, hat⟩ := fromSamples_range_wraps rfl
  refine ⟨hne, hlen, h0, hat, ?_⟩
  intro he
  exact absurd (h0.symm.trans (he.p99.trans hat)) (by decide)

end Netperf
