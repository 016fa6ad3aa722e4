import Mathlib.Algebra.Order.Field.Basic
import Mathlib.Algebra.Order.Ring.Rat
import Mathlib.Data.Nat.Cast.Order.Field
import Mathlib.Tactic.NormNum
import Mathlib.Tactic.Ring
import Netperf.Lib.Tiers
import Netperf.Stats
/-!
# The figures of the summary

The formatters of `netperf-core`'s `ui.rs`. A figure is the number before it
is rounded, in exact arithmetic, and the unit that is written after it.
-/

namespace Netperf

/-- A unit: how many it stands for, the decimals it is given (`{}` gives all of them) and its name. -/
structure Tier where
  size : Nat
  decimals : Option Nat
  label : String
deriving DecidableEq

structure Figure where
  mantissa : ℚ
  tier : Tier
deriving DecidableEq

/-- A number told in a unit. -/
def Figure.of (x : ℚ) (t : Tier) : Figure := ⟨x / t.size, t⟩

/-- The units of one formatter, from single ones on, each at most `step` of the one before. -/
structure Scale (step : Nat) where
  first : Tier
  rest : List Tier
  one : first.size = 1
  sorted : (first :: rest).Pairwise (fun a b => a.size < b.size)
  steps : (first :: rest).IsChain (fun a b => b.size ≤ step * a.size)

namespace Scale

variable {step : Nat}

def tiers (s : Scale step) : List Tier := s.first :: s.rest

def last (s : Scale step) : Tier := s.tiers.getLast (List.cons_ne_nil s.first s.rest)

/-- The unit of a number. -/
def pick (s : Scale step) (x : ℚ) : Tier := Tiers.pick (fun t => (t.size : ℚ)) x s.first s.rest

end Scale

/-- The formatters that choose the unit by the number they print. -/
def humanize {step : Nat} (s : Scale step) (x : ℚ) : Figure := .of x (s.pick x)

/-! ## The formatters -/

def kbytes : Nat := 1024
def mbytes : Nat := 1024 * kbytes
def gbytes : Nat := 1024 * mbytes
def tbytes : Nat := 1024 * gbytes

def kbits : Nat := 1000
def mbits : Nat := 1000 * kbits
def gbits : Nat := 1000 * mbits
def tbits : Nat := 1000 * gbits

def byteScale : Scale 1024 where
  first := ⟨1, none, "B"⟩
  rest := [⟨kbytes, some 2, "KiB"⟩, ⟨mbytes, some 2, "MiB"⟩, ⟨gbytes, some 2, "GiB"⟩, ⟨tbytes, some 2, "TiB"⟩]
  one := rfl
  sorted := by decide
  steps := by decide

def humanizeBytes (bytes : Nat) : Figure := humanize byteScale bytes

def nsScale : Scale 1000 where
  first := ⟨1, none, "ns"⟩
  rest := [⟨1000, some 2, "µs"⟩, ⟨1000000, some 2, "ms"⟩, ⟨1000000000, some 2, "s"⟩]
  one := rfl
  sorted := by decide
  steps := by decide

def humanizeNs (ns : Nat) : Figure := humanize nsScale ns

def bpsScale : Scale 1000 where
  first := ⟨1, some 0, "bits/sec"⟩
  rest := [⟨1000, some 2, "Kbits/sec"⟩, ⟨1000000, some 2, "Mbits/sec"⟩, ⟨1000000000, some 2, "Gbits/sec"⟩]
  one := rfl
  sorted := by decide
  steps := by decide

def humanizeBps (bps : Nat) : Figure := humanize bpsScale bps

def bitsTier : Tier := ⟨1, none, "Bits/sec"⟩
def kbitsTier : Tier := ⟨kbits, some 2, "Kbits/sec"⟩
def mbitsTier : Tier := ⟨mbits, some 2, "Mbits/sec"⟩
def gbitsTier : Tier := ⟨gbits, some 2, "Gbits/sec"⟩
def tbitsTier : Tier := ⟨tbits, some 2, "Tbits/sec"⟩

/-- Of a duration above zero. From the second comparison on, it is the bytes that are compared. -/
def humanizeBitrate (bytes durationMillis : Nat) : Figure :=
  let bits := bytes * 8 % u64Size
  let rate : ℚ := (bits : ℚ) / durationMillis * 1000
  if rate < kbits then ⟨rate, bitsTier⟩
  else if bytes < mbits then ⟨rate / kbits, kbitsTier⟩
  else if bytes < gbits then ⟨rate / mbits, mbitsTier⟩
  else if bytes < tbits then ⟨rate / gbits, gbitsTier⟩
  else ⟨rate / tbits, tbitsTier⟩

/-- The units of `humanize_bitrate`. -/
def bitScale : Scale 1000 where
  first := bitsTier
  rest := [kbitsTier, mbitsTier, gbitsTier, tbitsTier]
  one := rfl
  sorted := by decide
  steps := by decide

/-! ## The unit that fits a number -/

/-- The unit is the largest one that does not exceed the number, or the first one. -/
structure Figure.Fits {step : Nat} (f : Figure) (s : Scale step) (x : ℚ) : Prop where
  mem : f.tier ∈ s.tiers
  first_or_le : f.tier = s.first ∨ (f.tier.size : ℚ) ≤ x
  largest : ∀ u ∈ s.tiers, (u.size : ℚ) ≤ x → u.size ≤ f.tier.size
  exact : f.mantissa * f.tier.size = x

section
variable {step : Nat} {s : Scale step} {f : Figure} {x : ℚ}

theorem Scale.sorted_cast (s : Scale step) :
    (s.first :: s.rest).Pairwise (fun a b => (a.size : ℚ) < (b.size : ℚ)) :=
  s.sorted.imp Nat.cast_lt.2

theorem Scale.size_pos {t : Tier} (ht : t ∈ s.tiers) : 0 < t.size := by
  have hone := s.one
  rcases List.mem_cons.1 ht with rfl | ht
  · omega
  · have hlt := (List.pairwise_cons.1 s.sorted).1 t ht
    omega

theorem Figure.of_exact {t : Tier} (x : ℚ) (ht : 0 < t.size) : (Figure.of x t).mantissa * t.size = x :=
  div_mul_cancel₀ x (Nat.cast_ne_zero.2 (Nat.ne_of_gt ht))

/-- Only one figure fits, the one that comes of looking at the number itself. -/
theorem fits_iff : f.Fits s x ↔ f = humanize s x := by
  constructor
  · intro h
    have hpos : (f.tier.size : ℚ) ≠ 0 := Nat.cast_ne_zero.2 (Nat.ne_of_gt (Scale.size_pos h.mem))
    have ht : f.tier = s.pick x := by
      apply Tiers.eq_pick s.sorted_cast h.mem h.first_or_le
      intro u hu hx
      exact Nat.cast_le.2 (h.largest u hu hx)
    have hm : f.mantissa = x / (s.pick x).size := by
      rw [← ht]
      exact eq_div_of_mul_eq hpos h.exact
    cases f
    subst ht hm
    rfl
  · rintro rfl
    have hmem : s.pick x ∈ s.tiers := Tiers.pick_mem _ x s.first s.rest
    constructor
    · exact hmem
    · exact Tiers.pick_eq_or_le _ x s.first s.rest
    · intro u hu hx
      exact Nat.cast_le.1 (Tiers.size_le_pick s.sorted_cast u hu hx)
    · exact Figure.of_exact x (Scale.size_pos hmem)

theorem Figure.Fits.one_le (h : f.Fits s x) (ht : f.tier ≠ s.first) : 1 ≤ f.mantissa := by
  have hpos : (0 : ℚ) < f.tier.size := Nat.cast_pos.2 (Scale.size_pos h.mem)
  have hle := h.first_or_le.resolve_left ht
  rw [← h.exact] at hle
  exact le_of_mul_le_mul_right (by rwa [one_mul]) hpos

theorem Figure.Fits.lt_step (h : f.Fits s x) (ht : f.tier ≠ s.last) : f.mantissa < step := by
  have hpos : (0 : ℚ) < f.tier.size := Nat.cast_pos.2 (Scale.size_pos h.mem)
  have hsteps : (s.first :: s.rest).IsChain (fun a b => (b.size : ℚ) ≤ step * a.size) :=
    s.steps.imp fun _ _ hab => by exact_mod_cast hab
  have hf : f.tier = s.pick x := congrArg Figure.tier (fits_iff.1 h)
  have hlt := (Tiers.lt_reach (x := x) hsteps).resolve_left (by rw [hf] at ht; exact ht)
  change x < step * (s.pick x).size at hlt
  rw [← hf, ← h.exact] at hlt
  exact lt_of_mul_lt_mul_right hlt hpos.le

/-- The formatters that look at the number they print find the unit that fits. -/
theorem humanize_fits (s : Scale step) (x : ℚ) : (humanize s x).Fits s x := fits_iff.2 rfl

theorem Figure.of_inj {t t' : Tier} : Figure.of x t = Figure.of x t' ↔ t = t' := by
  constructor
  · exact congrArg Figure.tier
  · exact congrArg (Figure.of x)

end

/-! ## The unit of a bit rate -/

section
variable {bytes durationMillis : Nat}

/-- Bits per second. -/
def bitRate (bytes durationMillis : Nat) : ℚ := 8000 * bytes / durationMillis

theorem bitRate_lt_iff (hd : 0 < durationMillis) (n : Nat) :
    bitRate bytes durationMillis < n ↔ 8000 * bytes < n * durationMillis := by
  unfold bitRate
  rw [div_lt_iff₀ (Nat.cast_pos.2 hd)]
  exact_mod_cast Iff.rfl

/-- Below a bit count of 64 bits the rate is the exact one. -/
theorem rate_eq (hb : bytes < 2 ^ 61) :
    ((bytes * 8 % u64Size : Nat) : ℚ) / durationMillis * 1000 = bitRate bytes durationMillis := by
  have hmod : bytes * 8 % u64Size = bytes * 8 := Nat.mod_eq_of_lt (by unfold u64Size; omega)
  unfold bitRate
  rw [hmod]
  push_cast
  ring

/-- The unit that `humanize_bitrate` chooses: above single bits, the one that fits the byte count. -/
def bitrateTier (bytes durationMillis : Nat) : Tier :=
  if bitRate bytes durationMillis < kbits then bitsTier
  else Tiers.pick (fun t => (t.size : ℚ)) (bytes : ℚ) kbitsTier [mbitsTier, gbitsTier, tbitsTier]

theorem humanizeBitrate_eq (hb : bytes < 2 ^ 61) :
    humanizeBitrate bytes durationMillis =
      .of (bitRate bytes durationMillis) (bitrateTier bytes durationMillis) := by
  unfold humanizeBitrate bitrateTier
  dsimp only
  rw [rate_eq hb]
  simp only [Tiers.pick, Nat.cast_lt]
  split
  · unfold Figure.of bitsTier
    rw [Nat.cast_one, div_one]
  · change ite (bytes < mbits) _ _ = Figure.of _ (ite (bytes < mbits) _ (ite (bytes < gbits) _ (ite (bytes < tbits) _ _)))
    split_ifs <;> rfl

theorem bitrateTier_mem : bitrateTier bytes durationMillis ∈ bitScale.tiers := by
  unfold bitrateTier
  split
  · exact List.mem_cons_self
  · exact List.mem_cons_of_mem _ (Tiers.pick_mem _ _ _ _)

/-- Whatever the unit, the figure is exact. -/
theorem humanizeBitrate_exact (hb : bytes < 2 ^ 61) :
    (humanizeBitrate bytes durationMillis).mantissa * (humanizeBitrate bytes durationMillis).tier.size =
      bitRate bytes durationMillis := by
  rw [humanizeBitrate_eq hb]
  exact Figure.of_exact _ (Scale.size_pos bitrateTier_mem)

/-- What the bytes are compared with is the unit of the rate only when no unit is between the two. -/
theorem humanizeBitrate_fits_iff (hb : bytes < 2 ^ 61) (hd : 0 < durationMillis) :
    (humanizeBitrate bytes durationMillis).Fits bitScale (bitRate bytes durationMillis) ↔
      8000 * bytes < 1000 * durationMillis ∨
        ∀ u ∈ [mbits, gbits, tbits], bytes < u ↔ 8000 * bytes < u * durationMillis := by
  have hsorted : (kbitsTier :: [mbitsTier, gbitsTier, tbitsTier]).Pairwise
      (fun a b => (a.size : ℚ) < (b.size : ℚ)) := (List.pairwise_cons.1 bitScale.sorted_cast).2
  have hfirst : bitRate bytes durationMillis < (kbits : ℚ) ↔ 8000 * bytes < 1000 * durationMillis :=
    bitRate_lt_iff hd kbits
  have hpick : bitScale.pick (bitRate bytes durationMillis) =
      if bitRate bytes durationMillis < kbits then bitsTier
      else Tiers.pick (fun t => (t.size : ℚ)) (bitRate bytes durationMillis) kbitsTier
        [mbitsTier, gbitsTier, tbitsTier] := rfl
  rw [fits_iff, humanizeBitrate_eq hb]
  unfold humanize bitrateTier
  rw [Figure.of_inj, hpick, ← hfirst]
  by_cases hk : bitRate bytes durationMillis < kbits
  · simp only [hk, if_true, true_or]
  · simp only [hk, if_false, false_or]
    have hsizes : [mbits, gbits, tbits] = [mbitsTier, gbitsTier, tbitsTier].map Tier.size := rfl
    rw [Tiers.pick_eq_iff hsorted, hsizes, List.forall_mem_map]
    simp only [Nat.cast_lt, bitRate_lt_iff hd]

/-- The units match the magnitude, also for the formatter of the latency report. -/
structure Magnitude (bytes durationMillis : Nat) : Prop where
  fits : (humanizeBitrate bytes durationMillis).Fits bitScale (bitRate bytes durationMillis)
  bits : bitRate bytes durationMillis < 1000 → (humanizeBitrate bytes durationMillis).tier = bitsTier
  mantissa : (humanizeBitrate bytes durationMillis).tier ≠ bitsTier →
    (humanizeBitrate bytes durationMillis).tier ≠ tbitsTier →
      1 ≤ (humanizeBitrate bytes durationMillis).mantissa ∧ (humanizeBitrate bytes durationMillis).mantissa < 1000
  bps : ∀ n : Nat, (n : ℚ) = bitRate bytes durationMillis → n < 10 ^ 12 →
    (humanizeBps n).tier.size = (humanizeBitrate bytes durationMillis).tier.size

/-- Below a terabit the two scales have the same units. -/
theorem humanizeBps_size {n : Nat} (hn : n < 10 ^ 12) :
    (humanizeBps n).tier.size = (humanize bitScale n).tier.size := by
  have hsizes : bitScale.rest.map (fun t => (t.size : ℚ)) =
      bpsScale.rest.map (fun t => (t.size : ℚ)) ++ [(tbits : ℚ)] := rfl
  have hfirst : bitScale.first.size = bpsScale.first.size := rfl
  have htbits : ∀ w ∈ [(tbits : ℚ)], (n : ℚ) < id w := by
    intro w hw
    rw [List.mem_singleton.1 hw]
    exact Nat.cast_lt.2 hn
  have hbps := Tiers.size_pick (fun t : Tier => (t.size : ℚ)) n bpsScale.first bpsScale.rest
  have hbit := Tiers.size_pick (fun t : Tier => (t.size : ℚ)) n bitScale.first bitScale.rest
  rw [hsizes, Tiers.pick_append _ htbits, hfirst, ← hbps] at hbit
  exact (Nat.cast_inj.1 hbit).symm

/-- The unit matches when no threshold is between the bytes and the rate. -/
theorem magnitude_iff (hb : bytes < 2 ^ 61) (hd : 0 < durationMillis) :
    Magnitude bytes durationMillis ↔
      8000 * bytes < 1000 * durationMillis ∨
        ∀ u ∈ [mbits, gbits, tbits], bytes < u ↔ 8000 * bytes < u * durationMillis := by
  rw [← humanizeBitrate_fits_iff hb hd]
  constructor
  · exact Magnitude.fits
  · intro h
    constructor
    · exact h
    · intro hlow
      have hk : bitRate bytes durationMillis < (kbits : ℚ) := hlow.trans_eq (by norm_num [kbits])
      rw [fits_iff.1 h]
      exact if_pos hk
    · intro hfirst hlast
      exact ⟨h.one_le hfirst, h.lt_step hlast⟩
    · intro n hn hlt
      rw [humanizeBps_size hlt, hn, ← fits_iff.1 h]

end

/-- A gigabyte in eight seconds. -/
theorem magnitude_gigabyte : Magnitude 1000000000 8000 :=
  (magnitude_iff (by decide) (by decide)).2 (.inr (by decide))

/-- A gigabit in one second is told as a thousand megabits, where the latency report says a gigabit. -/
theorem not_magnitude_gigabit :
    125000000 < 2 ^ 61 ∧ bitRate 125000000 1000 = 1000000000 ∧
      humanizeBitrate 125000000 1000 = ⟨1000, mbitsTier⟩ ∧ (humanizeBps 1000000000).tier.size = gbits ∧
      ¬Magnitude 125000000 1000 := by
  have hbitrate : humanizeBitrate 125000000 1000 = ⟨1000, mbitsTier⟩ := by decide +kernel
  refine ⟨by decide, by norm_num [bitRate], hbitrate, by decide +kernel, ?_⟩
  intro h
  have hlt := (h.mantissa (by rw [hbitrate]; decide) (by rw [hbitrate]; decide)).2
  rw [hbitrate] at hlt
  exact lt_irrefl _ hlt

end Netperf
