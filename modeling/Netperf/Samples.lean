import Netperf.Lib.Sums
import Netperf.Stats
/-!
# What the percentiles are made of

`Dist::from_samples` as it runs: an index that is out of bounds panics, and
every operation wraps at the width of its type. The `usize` is of any target.
-/

namespace Netperf

def u128Size : Nat := 2 ^ 128

/-- `from_samples` on a target whose `usize` has `size` values; `none` is a panic. -/
def Dist.evaluate (size : Nat) (v : List Nat) : Option Dist :=
  if v.isEmpty then some .default
  else do
    let v := v.mergeSort
    let n := v.length
    let pct (p : Nat) : Option Nat :=
      let rank := (p % size * n % size + 99) / 100
      v[Nat.min (rank - 1) (n - 1)]?
    let sum := v.foldl (fun sum x => (sum + x) % u128Size) 0
    let min ← v[0]?
    let p50 ← pct 50
    let p90 ← pct 90
    let p99 ← pct 99
    let p100 ← v[n - 1]?
    some { count := n % u64Size, min, p50, p90, p99, p100, mean := sum / n % u64Size }

/-- The percentiles are samples, the extremes are extreme and the mean is rounded down. -/
structure Dist.Describes (d : Dist) (v : List Nat) : Prop where
  min_mem : d.min ∈ v
  min_le : ∀ x ∈ v, d.min ≤ x
  p50_mem : d.p50 ∈ v
  p90_mem : d.p90 ∈ v
  p99_mem : d.p99 ∈ v
  p100_mem : d.p100 ∈ v
  le_p100 : ∀ x ∈ v, x ≤ d.p100
  mean_floor : d.mean * v.length ≤ v.sum ∧ v.sum < (d.mean + 1) * v.length
  mean_between : d.min ≤ d.mean ∧ d.mean ≤ d.p100

/-- The samples that stand at three ranks, between the first and the last. -/
def Dist.atRanks (v : List Nat) (r50 r90 r99 : Nat) : Dist :=
  { count := v.length
    min := sampleAt v 1
    p50 := sampleAt v r50
    p90 := sampleAt v r90
    p99 := sampleAt v r99
    p100 := sampleAt v v.length
    mean := v.sum / v.length }

variable {size : Nat} {v w : List Nat}

/-- The rank that `pct` looks at. -/
def pickedRank (size : Nat) (v : List Nat) (p : Nat) : Nat :=
  Nat.min ((p % size * v.length % size + 99) / 100 - 1) (v.length - 1) + 1

theorem pickedRank_le (h : v ≠ []) (p : Nat) : pickedRank size v p - 1 < v.length := by
  have hn : 0 < v.length := List.length_pos_iff.2 h
  have hlt : v.length - 1 < v.length := by omega
  unfold pickedRank
  rw [Nat.add_sub_cancel]
  exact Nat.lt_of_le_of_lt (Nat.min_le_right _ _) hlt

theorem getElem?_sort {i : Nat} (hi : i < v.length) : v.mergeSort[i]? = some (sampleAt v (i + 1)) := by
  have hi' : i < v.mergeSort.length := by rwa [List.length_mergeSort]
  rw [List.getElem?_eq_getElem hi', sampleAt_eq (by simpa using hi')]
  rfl

theorem sampleAt_mem {r : Nat} (hr : r - 1 < v.length) : sampleAt v r ∈ v := by
  rw [sampleAt_eq (by rwa [List.length_mergeSort]), ← Ranks.mem_sort]
  exact List.getElem_mem _

/-- The first sample is the least, the last one the greatest. -/
theorem sampleAt_one_le (h : v ≠ []) {x : Nat} (hx : x ∈ v) : sampleAt v 1 ≤ x := by
  have hpos : 0 < v.countP (· ≤ x) := List.countP_pos_iff.2 ⟨x, hx, by simp⟩
  exact (sampleAt_le_iff (List.length_pos_iff.2 h) x).2 hpos

theorem le_sampleAt_length (h : v ≠ []) {x : Nat} (hx : x ∈ v) : x ≤ sampleAt v v.length := by
  have hn : 0 < v.length := List.length_pos_iff.2 h
  apply (le_sampleAt_iff (by omega) x).2
  have hlt : v.countP (· < x) < v.length := by
    apply Nat.lt_of_le_of_ne List.countP_le_length
    intro he
    have hall := List.countP_eq_length.1 he x hx
    simp at hall
  omega

/-! ## The sum -/

theorem sum_lt (hlen : v.length < u64Size) (hv : ∀ x ∈ v, x < u64Size) : v.sum < u128Size := by
  have hle := List.sum_le_card_nsmul v (u64Size - 1) (fun x hx => Nat.le_sub_one_of_lt (hv x hx))
  rw [Nat.nsmul_eq_mul] at hle
  have hmul := Nat.mul_le_mul_right (u64Size - 1) (Nat.le_sub_one_of_lt hlen)
  have hlast : (u64Size - 1) * (u64Size - 1) < u128Size := by decide
  omega

theorem mean_lt (hv : ∀ x ∈ v, x < u64Size) : v.sum / v.length < u64Size := by
  have hle := Sums.mean_le (fun x hx => Nat.le_sub_one_of_lt (hv x hx))
  have hpos : 0 < u64Size := by decide
  omega

theorem foldl_sort_sum (h : v.sum < u128Size) :
    v.mergeSort.foldl (fun sum x => (sum + x) % u128Size) 0 = v.sum := by
  have hsum : v.mergeSort.sum = v.sum := (List.mergeSort_perm v _).sum_nat
  rw [Sums.foldl_add_mod (by decide), hsum, Nat.zero_add, Nat.mod_eq_of_lt h]

/-! ## What a run gives -/

/-- Only the sorted samples are looked at. -/
theorem evaluate_perm (h : w.Perm v) : Dist.evaluate size w = Dist.evaluate size v := by
  unfold Dist.evaluate
  rw [Ranks.sort_eq_of_perm h, h.isEmpty_eq]

theorem evaluate_eq (h : v ≠ []) (hlen : v.length < u64Size) (hv : ∀ x ∈ v, x < u64Size) :
    Dist.evaluate size v = some (.atRanks v (pickedRank size v 50) (pickedRank size v 90) (pickedRank size v 99)) := by
  have hn : 0 < v.length := List.length_pos_iff.2 h
  have hpct (p : Nat) : v.mergeSort[Nat.min ((p % size * v.length % size + 99) / 100 - 1) (v.length - 1)]? =
      some (sampleAt v (pickedRank size v p)) := getElem?_sort (pickedRank_le h p)
  have hlast : v.mergeSort[v.length - 1]? = some (sampleAt v v.length) := by
    rw [getElem?_sort (by omega), Nat.sub_add_cancel hn]
  unfold Dist.evaluate
  rw [if_neg (by simpa using h)]
  simp only [List.length_mergeSort, hpct, hlast, getElem?_sort hn, foldl_sort_sum (sum_lt hlen hv)]
  rw [Nat.mod_eq_of_lt hlen, Nat.mod_eq_of_lt (mean_lt hv)]
  rfl

/-- On the build target it is `fromSamples`. -/
theorem evaluate_eq_fromSamples (hlen : v.length < u64Size) (hv : ∀ x ∈ v, x < u64Size) :
    Dist.evaluate usizeSize v = some (Dist.fromSamples v) := by
  by_cases h : v = []
  · subst h
    rfl
  · have hrank (p : Nat) (hp : p ≤ 100) : pickedRank usizeSize v p = wrappedRank v p := by
      have hsmall : p % usizeSize = p := Nat.mod_eq_of_lt (Nat.lt_of_le_of_lt hp (by decide))
      have hpos := wrappedRank_pos (v := v) (p := p)
      unfold pickedRank
      rw [hsmall, min_index_eq h hp]
      omega
    rw [evaluate_eq h hlen hv, fromSamples_eq h, hrank 50 (by omega), hrank 90 (by omega), hrank 99 (by omega)]
    rfl

/-- Wherever the ranks of the percentiles point, the samples are described. -/
theorem atRanks_describes {r50 r90 r99 : Nat} (h : v ≠ []) (h50 : r50 - 1 < v.length) (h90 : r90 - 1 < v.length)
    (h99 : r99 - 1 < v.length) :
    (Dist.atRanks v r50 r90 r99).Describes v := by
  have hn : 0 < v.length := List.length_pos_iff.2 h
  constructor
  · exact sampleAt_mem hn
  · intro x hx
    exact sampleAt_one_le h hx
  · exact sampleAt_mem h50
  · exact sampleAt_mem h90
  · exact sampleAt_mem h99
  · exact sampleAt_mem (by omega)
  · intro x hx
    exact le_sampleAt_length h hx
  · constructor
    · exact Nat.div_mul_le_self v.sum v.length
    · exact Nat.lt_mul_of_div_lt (Nat.lt_succ_self _) hn
  · constructor
    · apply Sums.le_mean h
      intro x hx
      exact sampleAt_one_le h hx
    · apply Sums.mean_le
      intro x hx
      exact le_sampleAt_length h hx

/-- Whatever `usize` is, no index is out of bounds, nothing but the rank wraps, and the order of the
samples does not matter. -/
theorem evaluate_describes (hsize : size ≤ u64Size) (hlen : v.length < size) (hv : ∀ x ∈ v, x < u64Size) :
    v.sum < u128Size ∧ v.sum / v.length < u64Size ∧
      ∃ d, (∀ w, w.Perm v → Dist.evaluate size w = some d) ∧ d.count = v.length ∧ (v ≠ [] → d.Describes v) := by
  have hlen' : v.length < u64Size := Nat.lt_of_lt_of_le hlen hsize
  refine ⟨sum_lt hlen' hv, mean_lt hv, ?_⟩
  by_cases h : v = []
  · subst h
    refine ⟨.default, ?_, rfl, fun hne => absurd rfl hne⟩
    intro w hw
    exact evaluate_perm hw
  · have heval : Dist.evaluate size v = _ := evaluate_eq h hlen' hv
    refine ⟨_, fun w hw => (evaluate_perm hw).trans heval, rfl, ?_⟩
    intro hne
    exact atRanks_describes hne (pickedRank_le h 50) (pickedRank_le h 90) (pickedRank_le h 99)

theorem evaluate_describes_three :
    ∃ d, Dist.evaluate usizeSize [20, 30, 10] = some d ∧ d.Describes [30, 10, 20] := by
  have hv : ∀ x ∈ [30, 10, 20], x < u64Size := by decide
  have hlen : [30, 10, 20].length < usizeSize := by decide
  obtain ⟨-, -, d, heval, -, hd⟩ := evaluate_describes (by decide) hlen hv
  exact ⟨d, heval _ (by decide), hd (by decide)⟩

end Netperf
