import Netperf.Accounting
import Netperf.Samples
/-!
# What the latency of a worker says

The gaps and the goodput windows of a measured stream against the writes and
reads that were over: which of them are samples, which windows they fill, and
what the mean, the extremes and the rates of the results say of the whole run.
-/

namespace Netperf

open Runs

/-- The rate of a window in exact arithmetic, before the rounding of `f64`. -/
def exactRate (bytes ns : Nat) : Nat := bytes * 8 * nsPerSec / ns

/-! ## The cost of a clock read -/

/-- The differences of successive reads of the clock. -/
def clockDeltas : Nat → List Nat → List Nat
  | _, [] => []
  | prev, now :: nows => (now - prev) :: clockDeltas now nows

/-- The median of the differences; the source reads the clock 256 times. -/
def calibrateClock (prev : Nat) (nows : List Nat) : Nat :=
  let deltas := (clockDeltas prev nows).mergeSort
  deltas.getD (deltas.length / 2) 0

theorem length_clockDeltas (prev : Nat) (nows : List Nat) : (clockDeltas prev nows).length = nows.length := by
  induction nows generalizing prev with
  | nil => rfl
  | cons now nows ih => exact congrArg Nat.succ (ih now)

/-- At least half of the differences are as large as the median, and more than
half as small. -/
theorem calibrateClock_median (prev : Nat) {nows : List Nat} (h : nows ≠ []) :
    nows.length ≤ 2 * (clockDeltas prev nows).countP (calibrateClock prev nows ≤ ·) ∧
      nows.length < 2 * (clockDeltas prev nows).countP (· ≤ calibrateClock prev nows) := by
  have hlen := length_clockDeltas prev nows
  have hpos : 0 < nows.length := List.length_pos_iff.2 h
  have hsample : calibrateClock prev nows = sampleAt (clockDeltas prev nows) (nows.length / 2 + 1) := by
    simp only [calibrateClock, sampleAt, List.length_mergeSort, hlen, Nat.add_sub_cancel]
  have hr : nows.length / 2 + 1 - 1 < (clockDeltas prev nows).length := by omega
  have hbelow := (le_sampleAt_iff hr _).1 (Nat.le_of_eq hsample)
  have habove := (sampleAt_le_iff hr _).1 (Nat.le_of_eq hsample.symm)
  have hsplit : (clockDeltas prev nows).length = (clockDeltas prev nows).countP (· < calibrateClock prev nows) +
      (clockDeltas prev nows).countP (calibrateClock prev nows ≤ ·) := by
    rw [List.length_eq_countP_add_countP (fun x => decide (x < calibrateClock prev nows))]
    congr 1
    apply List.countP_congr
    simp
  omega

/-! ## Results of samples -/

namespace Dist
variable {v : List Nat}

theorem fromSamples_describes (h : v ≠ []) : (fromSamples v).Describes v := by
  have hpos : 0 < v.length := List.length_pos_iff.2 h
  have hrank : ∀ p, 0 < p → p ≤ 100 → wrappedRank v p - 1 < v.length := by
    intro p hp hle
    have hwrapped := wrappedRank_le h hp
    have hnearest := nearestRank_le (v := v) hle
    omega
  rw [fromSamples_eq h]
  exact atRanks_describes h (hrank 50 (by omega) (by omega)) (hrank 90 (by omega) (by omega))
    (hrank 99 (by omega) (by omega))

theorem fromSamples_count (v : List Nat) : (fromSamples v).count = v.length := by
  by_cases h : v = []
  · rw [h]
    rfl
  · rw [fromSamples_eq h]

end Dist

/-! ## Samples and windows -/

namespace Completion

/-- When the last of them was over. -/
def ended (startTime : Nat) (ios : List Completion) : Nat := (ios.map now).getLastD startTime

theorem ended_snoc (startTime : Nat) (ios : List Completion) (io : Completion) : ended startTime (ios ++ [io]) = io.now := by
  simp [ended]

theorem ended_le {startTime t : Nat} {ios : List Completion} (hs : startTime ≤ t) (h : ∀ io ∈ ios, io.now ≤ t) :
    ended startTime ios ≤ t := by
  have hmem : ended startTime ios ∈ startTime :: ios.map now := List.getLastD_mem_cons
  rcases List.mem_cons.1 hmem with he | hm
  · rw [he]
    exact hs
  · obtain ⟨io, hio, he⟩ := List.mem_map.1 hm
    rw [← he]
    exact h io hio

theorem transferred_append (ios os : List Completion) : transferred (ios ++ os) = transferred ios + transferred os := by
  simp [transferred]

theorem Ordered.now_le {startTime : Nat} {ios : List Completion} {io : Completion} (h : Ordered startTime (ios ++ [io])) :
    startTime ≤ io.now ∧ ∀ io' ∈ ios, io'.now ≤ io.now := by
  unfold Ordered at h
  rw [List.map_append, ← List.cons_append, List.pairwise_append] at h
  have hle := fun t ht => h.2.2 t ht io.now (by simp)
  exact ⟨hle _ List.mem_cons_self, fun io' hm => hle _ (List.mem_cons_of_mem _ (List.mem_map_of_mem hm))⟩

end Completion

namespace Load

open Completion

variable {params : TestParameters} {startTime base : Nat} {ms closed rest discarded sampled : List Completion} {l : Load}

/-- The closed windows cover the completions up to some point, and what came
later is too short for a window. -/
structure Windows (startTime : Nat) (ms : List Completion) (l : Load) (closed rest : List Completion) : Prop where
  parts : ms = closed ++ rest
  bytes : (l.tput.map Prod.fst).sum = transferred closed
  spans : startTime + (l.tput.map Prod.snd).sum = l.winStart
  start : l.winStart = ended startTime closed
  pending : l.winBytes = transferred rest
  short : ∀ io ∈ rest, io.now - l.winStart < win
  long : ∀ w ∈ l.tput, win ≤ w.2

/-- The gaps before the end of the warm-up are discarded, the later ones are samples. -/
structure Samples (params : TestParameters) (startTime : Nat) (ms : List Completion) (l : Load)
    (discarded sampled : List Completion) : Prop where
  parts : ms = discarded ++ sampled
  count : l.warmupDiscarded = discarded.length
  samples : l.samples = sampled.map (fun io => io.gap - l.clockBaselineNs)
  previous : l.tPrev = ended startTime ms
  gaps : ended startTime discarded + (sampled.map gap).sum = l.tPrev
  early : ∀ io ∈ discarded, io.now - startTime < warmup params
  late : ∀ io ∈ sampled, warmup params ≤ io.now - startTime

theorem Windows.window (h : Windows startTime ms l closed rest) (io : Completion) (hle : l.winStart ≤ io.now) :
    ∃ closed rest, Windows startTime (ms ++ [io]) (l.window io.bytesCount io.now) closed rest := by
  have hspans := h.spans
  unfold Load.window
  dsimp only
  split
  · rename_i hlong
    -- the closed window takes all that was pending
    refine ⟨ms ++ [io], [], (List.append_nil _).symm, ?_, ?_, (ended_snoc ..).symm, rfl, by simp, ?_⟩
    · rw [List.map_append, List.sum_append, h.bytes, h.pending, h.parts, transferred_append, transferred_append]
      simp [transferred, Nat.add_assoc]
    · rw [List.map_append, List.sum_append, List.map_singleton, List.sum_singleton]
      dsimp only
      omega
    · intro w hw
      rcases List.mem_append.1 hw with hw | hw
      · exact h.long w hw
      · rw [List.mem_singleton.1 hw]
        exact hlong
  · rename_i hshort
    refine ⟨closed, rest ++ [io], ?_, h.bytes, hspans, h.start, ?_, ?_, h.long⟩
    · rw [h.parts, List.append_assoc]
    · rw [transferred_snoc, ← h.pending]
    · intro io' hm
      rcases List.mem_append.1 hm with hm | hm
      · exact h.short io' hm
      · rw [List.mem_singleton.1 hm]
        exact Nat.lt_of_not_le hshort

theorem Samples.sample (h : Samples params startTime ms l discarded sampled) (io : Completion) (hs : l.startTime = startTime)
    (hle : ∀ io' ∈ ms, io'.now ≤ io.now) (hprev : l.tPrev ≤ io.now) (hgap : io.gap = io.now - l.tPrev) :
    ∃ discarded sampled, Samples params startTime (ms ++ [io]) (l.sample params io.now) discarded sampled := by
  have hgaps := h.gaps
  unfold Load.sample
  dsimp only
  rw [hs]
  split
  · rename_i hlate
    refine ⟨discarded, sampled ++ [io], ?_, h.count, ?_, (ended_snoc ..).symm, ?_, h.early, ?_⟩
    · rw [h.parts, List.append_assoc]
    · rw [List.map_append, ← h.samples, List.map_singleton, hgap]
    · rw [List.map_append, List.sum_append, List.map_singleton, List.sum_singleton]
      dsimp only
      omega
    · intro io' hm
      rcases List.mem_append.1 hm with hm | hm
      · exact h.late io' hm
      · rw [List.mem_singleton.1 hm]
        exact hlate
  · -- the clock does not go back, so there are no samples yet
    rename_i hearly
    obtain rfl : sampled = [] := by
      apply List.eq_nil_iff_forall_not_mem.2
      intro io' hm
      have hlate := h.late io' hm
      have hnow := hle io' (h.parts ▸ List.mem_append_right _ hm)
      omega
    have hparts : ms = discarded := h.parts.trans (List.append_nil _)
    refine ⟨ms ++ [io], [], (List.append_nil _).symm, ?_, h.samples, (ended_snoc ..).symm, ended_snoc .., ?_, by simp⟩
    · dsimp only
      rw [h.count, hparts, List.length_append, List.length_singleton]
    · intro io' hm
      rcases List.mem_append.1 hm with hm | hm
      · exact h.early io' (hparts ▸ hm)
      · rw [List.mem_singleton.1 hm]
        omega

/-- The samples are the gaps without the cost of the clock. -/
theorem Samples.mean (h : Samples params startTime ms l discarded sampled) :
    ended startTime discarded + (Dist.fromSamples l.samples).count * (Dist.fromSamples l.samples).mean ≤ l.tPrev ∧
      l.tPrev ≤ ended startTime discarded +
        (Dist.fromSamples l.samples).count * ((Dist.fromSamples l.samples).mean + 1 + l.clockBaselineNs) := by
  have hgaps := h.gaps
  have hlen : l.samples.length = sampled.length := by rw [h.samples, List.length_map]
  rw [Dist.fromSamples_count]
  by_cases hnone : l.samples = []
  · rw [hnone] at hlen ⊢
    rw [List.length_eq_zero_iff.1 hlen.symm, List.map_nil, List.sum_nil] at hgaps
    simp [← hgaps]
  · obtain ⟨hlow, hhigh⟩ := (Dist.fromSamples_describes hnone).mean_floor
    -- a sample is its gap, or short of it by at most the baseline
    have hle : l.samples.sum ≤ (sampled.map gap).sum := by
      rw [h.samples]
      exact Sums.sum_map_le fun io _ => Nat.sub_le io.gap l.clockBaselineNs
    have hge : (sampled.map gap).sum ≤ l.samples.sum + l.samples.length * l.clockBaselineNs := by
      rw [hlen, h.samples]
      exact Sums.le_sum_map_sub gap l.clockBaselineNs sampled
    rw [Nat.mul_comm] at hlow hhigh
    rw [Nat.mul_add]
    omega

theorem exactRate_sum (ws : List (Nat × Nat)) : exactRate (ws.map Prod.fst).sum (ws.map Prod.snd).sum =
    (ws.map (fun w => w.1 * 8 * nsPerSec)).sum / (ws.map (fun w => w.2)).sum := by
  unfold exactRate
  rw [List.sum_map_mul_right, List.sum_map_mul_right]

theorem Windows.rates (h : Windows startTime ms l closed rest) (hl : l.tput ≠ []) :
    (Dist.fromSamples (l.tput.map (fun w => exactRate w.1 w.2))).min ≤
        exactRate (transferred closed) (ended startTime closed - startTime) ∧
      exactRate (transferred closed) (ended startTime closed - startTime) ≤
        (Dist.fromSamples (l.tput.map (fun w => exactRate w.1 w.2))).p100 := by
  have hspan : ended startTime closed - startTime = (l.tput.map Prod.snd).sum := by
    have hspans := h.spans
    have hstart := h.start
    omega
  have hpos : ∀ w ∈ l.tput, 0 < w.2 := by
    intro w hw
    have hlong := h.long w hw
    unfold win nsPerMilli at hlong
    omega
  have hd := Dist.fromSamples_describes (v := l.tput.map (fun w => exactRate w.1 w.2)) (by simpa using hl)
  -- the rate over all windows is the quotient of the totals, a reported one that of its window
  rw [hspan, ← h.bytes, exactRate_sum]
  constructor
  · apply Sums.le_quotient hl hpos
    intro w hw
    exact hd.min_le _ (List.mem_map_of_mem hw)
  · apply Sums.quotient_le hl hpos
    intro w hw
    exact hd.le_p100 _ (List.mem_map_of_mem hw)

/-- Every closed window has its share of the time. -/
theorem Windows.count (h : Windows startTime ms l closed rest) : startTime + l.tput.length * win ≤ ended startTime closed := by
  have hle := List.card_nsmul_le_sum (l.tput.map Prod.snd) win (by
    intro t ht
    obtain ⟨w, hw, rfl⟩ := List.mem_map.1 ht
    exact h.long w hw)
  rw [List.length_map, Nat.nsmul_eq_mul] at hle
  have hspans := h.spans
  have hstart := h.start
  omega

/-- What the loop's variables are made of when the latency is measured. -/
structure Explained (params : TestParameters) (startTime base : Nat) (ios : List Completion) (l : Load) : Prop where
  started : l.startTime = startTime
  baseline : l.clockBaselineNs = base
  windows : ∃ closed rest, Windows startTime (moved ios) l closed rest
  samples : ∃ discarded sampled, Samples params startTime (moved ios) l discarded sampled

theorem Explained.new (params : TestParameters) (startTime base : Nat) :
    (new startTime base).Explained params startTime base [] := by
  refine ⟨rfl, rfl, ⟨[], [], ?_⟩, ⟨[], [], ?_⟩⟩
  · constructor <;> simp [Load.new, moved, transferred, ended]
  · constructor <;> simp [Load.new, moved, ended]

theorem Explained.tick {ios : List Completion} (h : l.Explained params startTime base ios) (t : Nat) :
    (l.tick t).Explained params startTime base ios := by
  obtain ⟨hs, hb, ⟨closed, rest, hw⟩, discarded, sampled, hp⟩ := h
  exact ⟨hs, hb, ⟨closed, rest, { hw with }⟩, discarded, sampled, { hp with }⟩

theorem Explained.io {ios : List Completion} {n now : Nat} (hm : params.measureLatency = true)
    (h : l.Explained params startTime base ios) (ho : Ordered startTime (ios ++ [⟨n, now, now - l.tPrev⟩])) :
    (l.io params n now).Explained params startTime base (ios ++ [⟨n, now, now - l.tPrev⟩]) := by
  rcases Nat.eq_zero_or_pos n with rfl | hn
  · rw [io_zero]
    have hmoved : moved (ios ++ [⟨0, now, now - l.tPrev⟩]) = moved ios := moved_snoc_zero rfl
    exact { h with
      windows := hmoved ▸ h.windows
      samples := hmoved ▸ h.samples }
  · obtain ⟨hs, hb, ⟨closed, rest, hw⟩, discarded, sampled, hp⟩ := h
    obtain ⟨hstart, hbefore⟩ := ho.now_le
    have hmoved : ∀ io ∈ moved ios, io.now ≤ now := fun io hio => hbefore io (List.mem_filter.1 hio).1
    have hclosed : ∀ io ∈ closed, io.now ≤ now := fun io hio => hmoved io (hw.parts ▸ List.mem_append_left _ hio)
    let counted := { l with
      currentIntervalBytesTransferred := l.currentIntervalBytesTransferred + n
      bytesTransferred := l.bytesTransferred + n
      syscalls := l.syscalls + 1
      currentIntervalSyscalls := l.currentIntervalSyscalls + 1 }
    have hio : l.io params n now = (counted.window n now).sample params now := by
      unfold Load.io
      simp [hm, hn, counted]
    obtain ⟨tput, winStart, winBytes, hwin, -⟩ := window_of counted n now
    obtain ⟨samples, warmupDiscarded, hsam, -⟩ := sample_of (counted.window n now) params now
    -- first the window, then the sample
    have hw' : Windows startTime (moved ios) counted closed rest := { hw with }
    have hwindows := hw'.window ⟨n, now, now - l.tPrev⟩ (hw.start ▸ ended_le hstart hclosed)
    have hp' : Samples params startTime (moved ios) (counted.window n now) discarded sampled := by
      rw [hwin]
      exact { hp with }
    have hsamples := hp'.sample ⟨n, now, now - l.tPrev⟩ (by rw [hwin]; exact hs) hmoved
      (hp'.previous ▸ ended_le hstart hmoved) (by rw [hwin])
    have hsnoc : moved (ios ++ [⟨n, now, now - l.tPrev⟩]) = moved ios ++ [⟨n, now, now - l.tPrev⟩] := moved_snoc hn
    rw [← hsnoc] at hwindows hsamples
    rw [hio]
    refine ⟨?_, ?_, ?_, hsamples⟩
    · rw [hsam, hwin]
      exact hs
    · rw [hsam, hwin]
      exact hb
    · obtain ⟨closed', rest', hclosed'⟩ := hwindows
      rw [hsam]
      exact ⟨closed', rest', { hclosed' with }⟩

end Load

/-! ## Runs of a worker -/

namespace StreamWorker

open Completion

variable {rate : Nat → Nat → Nat} {w u v : StreamWorker} {e : StreamEvent} {params : TestParameters}
  {startTime base : Nat} {ios : List Completion}

/-- Ticks and completions keep this relation of the loop's variables to the completions. -/
structure Kept (params : TestParameters) (startTime : Nat) (P : List Completion → Load → Prop) : Prop where
  tick : ∀ ios (l : Load) t, P ios l → P ios (l.tick t)
  io : ∀ ios (l : Load) n now, P ios l → Ordered startTime (ios ++ [⟨n, now, now - l.tPrev⟩]) →
    P (ios ++ [⟨n, now, now - l.tPrev⟩]) (l.io params n now)

/-- The loop has started, and its variables are so related to the completions. -/
structure Related (rate : Nat → Nat → Nat) (params : TestParameters) (P : List Completion → Load → Prop)
    (ios : List Completion) (w : StreamWorker) : Prop where
  started : w.pc ≠ .spawned ∧ w.pc ≠ .waiting
  negotiated : w.params = params
  related : w.Variables rate (P ios)

variable {P : List Completion → Load → Prop}

theorem Related.leave (hp : w.params = params) {l : Load} (h : P ios l) (now : Nat) :
    (w.leave rate l now).Related rate params P ios := by
  refine ⟨?_, hp, Variables.leave h now⟩
  unfold StreamWorker.leave
  dsimp only
  split <;> simp

theorem Related.step (hk : Kept params startTime P) (hr : w.Related rate params P ios) (h : Step rate w e u)
    (ho : Ordered startTime (ios ++ w.completed e)) : u.Related rate params P (ios ++ w.completed e) := by
  obtain ⟨⟨hspawned, hwaiting⟩, rfl, hloading, hleft⟩ := hr
  cases h with
  | filled hpc | allocated hpc | unfilled hpc => exact absurd hpc hspawned
  | load hpc | unstarted hpc => exact absurd hpc hwaiting
  | again | drains =>
    simp only [completed, List.append_nil]
    exact ⟨⟨hspawned, hwaiting⟩, rfl, hloading, hleft⟩
  | terminated hpc | timeUp hpc =>
    simp only [completed, List.append_nil]
    exact Related.leave rfl (hloading _ hpc) _
  | @ticked l t hpc =>
    simp only [completed, List.append_nil]
    refine ⟨by simp, rfl, ?_, by simp⟩
    rintro l' ⟨⟩
    exact hk.tick _ l t (hloading l hpc)
  | @moved l n now hpc =>
    simp only [completed, hpc] at ho ⊢
    refine ⟨by simp, rfl, ?_, by simp⟩
    rintro l' ⟨⟩
    exact hk.io _ l n now (hloading l hpc) ho
  | @closed l now hpc =>
    simp only [completed, hpc] at ho ⊢
    exact Related.leave rfl (hk.io _ l 0 now (hloading l hpc) ho) now
  | @drained stats hpc =>
    simp only [completed, List.append_nil]
    refine ⟨by simp, rfl, by simp, ?_⟩
    intro stats' hs
    obtain rfl : stats = stats' := by simpa using hs
    exact hleft stats (.inl hpc)
  | failed | panicked =>
    simp only [completed, List.append_nil]
    exact ⟨by simp, rfl, by simp, by simp⟩

theorem related_run {es : List StreamEvent} (hk : Kept params startTime P) (hv : v.Related rate params P [])
    (h : Run (step rate) Any v es u) (ho : Ordered startTime (log (step rate) completed v es)) :
    u.Related rate params P (log (step rate) completed v es) := by
  revert ho
  apply h.inv_log (fun ios w => Ordered startTime ios → w.Related rate params P ios)
  · intro _
    exact hv
  · intro ios w e u ih _ hstep ho
    exact (ih ho.front).step hk (step_cases hstep) ho

theorem kept_explained (hm : params.measureLatency = true) : Kept params startTime (Load.Explained params startTime base) :=
  ⟨fun _ _ t h => h.tick t, fun _ _ _ _ h ho => h.io hm ho⟩

/-! ## The results -/

/-- What the latency of a stream's results says of the completions. -/
structure Tells (params : TestParameters) (startTime : Nat) (ios : List Completion) (lat : LatencyStats)
    (discarded sampled closed rest : List Completion) : Prop where
  warmed : moved ios = discarded ++ sampled
  early : ∀ io ∈ discarded, io.now - startTime < Load.warmup params
  late : ∀ io ∈ sampled, Load.warmup params ≤ io.now - startTime
  discards : lat.warmupDiscarded = discarded.length
  intervals : lat.intervalNs = .fromSamples (sampled.map (fun io => io.gap - lat.clockBaselineNs))
  /-- The mean tells how long the measured part of the run was. -/
  mean : ended startTime discarded + lat.intervalNs.count * lat.intervalNs.mean ≤ last startTime ios ∧
    last startTime ios ≤ ended startTime discarded + lat.intervalNs.count * (lat.intervalNs.mean + 1 + lat.clockBaselineNs)
  windowed : moved ios = closed ++ rest
  /-- No window is left open for as long as a window lasts. -/
  short : ∀ io ∈ rest, io.now - ended startTime closed < Load.win
  long : startTime + lat.throughputBps.count * Load.win ≤ ended startTime closed
  /-- The rate over all windows is between the least and the greatest that is reported. -/
  rates : 0 < lat.throughputBps.count →
    lat.throughputBps.min ≤ exactRate (transferred closed) (ended startTime closed - startTime) ∧
      exactRate (transferred closed) (ended startTime closed - startTime) ≤ lat.throughputBps.p100

theorem Tells.of_explained {l : Load} (h : l.Explained params startTime base ios) :
    ∃ discarded sampled closed rest, Tells params startTime ios (l.latency exactRate) discarded sampled closed rest := by
  obtain ⟨-, -, ⟨closed, rest, hw⟩, discarded, sampled, hs⟩ := h
  have hcount : (l.latency exactRate).throughputBps.count = l.tput.length := by
    unfold Load.latency
    rw [Dist.fromSamples_count, List.length_map]
  refine ⟨discarded, sampled, closed, rest, hs.parts, hs.early, hs.late, hs.count, ?_, ?_, hw.parts, ?_, ?_, ?_⟩
  · exact congrArg Dist.fromSamples hs.samples
  · have hlast : last startTime ios = l.tPrev := hs.previous.symm
    rw [hlast]
    exact hs.mean
  · rw [← hw.start]
    exact hw.short
  · rw [hcount]
    exact hw.count
  · intro hpos
    rw [hcount] at hpos
    exact hw.rates (List.length_pos_iff.1 hpos)

/--
What the latency in a stream's results says of the run that they come from. The
baseline is a median of 256 clock reads; the gaps up to some completion were
discarded, all before the end of the warm-up, and the mean of the later ones
tells how long they took together, up to a nanosecond and the baseline for each;
the goodput windows last ten milliseconds or more, cover all completions but those
of less than one window, and the rate over all of them is between the least and
the greatest that is reported.
-/
theorem latency_tells {prev : Nat} {nows : List Nat} {es : List StreamEvent} {stats : StreamStats}
    (hm : w.params.measureLatency = true) (hw : w.pc = .waiting) (hn : nows.length = 256)
    (hstart : w.step exactRate (.startLoad startTime (calibrateClock prev nows)) = some v)
    (h : Run (step exactRate) Any v es u) (ho : Ordered startTime (log (step exactRate) completed v es))
    (hu : u.pc = .done (.ok stats)) :
    ∃ lat, stats.latency = some lat ∧ 128 ≤ (clockDeltas prev nows).countP (lat.clockBaselineNs ≤ ·) ∧
      128 < (clockDeltas prev nows).countP (· ≤ lat.clockBaselineNs) ∧
      ∃ discarded sampled closed rest,
        Tells w.params startTime (log (step exactRate) completed v es) lat discarded sampled closed rest := by
  have hv : v.Related exactRate w.params (Load.Explained w.params startTime (calibrateClock prev nows)) [] := by
    cases step_cases hstart with
    | load =>
      refine ⟨by simp, rfl, ?_, by simp⟩
      rintro l ⟨⟩
      rw [if_pos hm]
      exact Load.Explained.new _ _ _
    | again hpc => simp [hw] at hpc
  have hrel := related_run (kept_explained hm) hv h ho
  obtain ⟨l, now, hl, rfl⟩ := hrel.related.left stats (.inr hu)
  have hnows : nows ≠ [] := by
    rintro rfl
    cases hn
  have hmedian := calibrateClock_median prev hnows
  refine ⟨l.latency exactRate, ?_, ?_, ?_, Tells.of_explained hl⟩
  · unfold stats
    rw [hrel.negotiated, hm]
    rfl
  · change 128 ≤ (clockDeltas prev nows).countP (l.clockBaselineNs ≤ ·)
    rw [hl.baseline]
    omega
  · change 128 < (clockDeltas prev nows).countP (· ≤ l.clockBaselineNs)
    rw [hl.baseline]
    omega

/-- A sender with one write in the warm-up and one after it. -/
theorem latency_tells_two : ∃ (u : StreamWorker) (stats : StreamStats) (lat : LatencyStats),
    u.pc = .done (.ok stats) ∧ stats.latency = some lat ∧ ∃ discarded sampled closed rest,
      Tells { uploadParams 1 with timeSeconds := 10, measureLatency := true, blockSize := 4 } 5
        [⟨4, 30000005, 30000000⟩, ⟨3, 1500000005, 1470000000⟩] lat discarded sampled closed rest := by
  let w : StreamWorker :=
    { new { uploadParams 1 with timeSeconds := 10, measureLatency := true, blockSize := 4 } true with pc := .waiting }
  let v : StreamWorker := { w with pc := .loading (.new 5 (calibrateClock 0 (List.range 256))) }
  have hstart : w.step exactRate (.startLoad 5 (calibrateClock 0 (List.range 256))) = some v := rfl
  have hlog : log (step exactRate) completed v [.io 4 30000005, .tick 1000000005, .io 3 1500000005, .deadline 2000000005] =
      [⟨4, 30000005, 30000000⟩, ⟨3, 1500000005, 1470000000⟩] := by
    decide +kernel
  let l : Load := (((Load.new 5 (calibrateClock 0 (List.range 256))).io w.params 4 30000005).tick 1000000005).io w.params 3
    1500000005
  let u : StreamWorker := { w with pc := .done (.ok (w.stats exactRate l 2000000005)) }
  have h : Run (step exactRate) Any v [.io 4 30000005, .tick 1000000005, .io 3 1500000005, .deadline 2000000005] u :=
    run_of_exec rfl
  obtain ⟨lat, hlat, -, -, htells⟩ := latency_tells rfl rfl List.length_range hstart h (by rw [hlog]; decide +kernel) rfl
  rw [hlog] at htells
  exact ⟨u, _, lat, rfl, hlat, htells⟩

end StreamWorker

end Netperf
