import Mathlib.Algebra.Group.Nat.Defs
import Netperf.Lib.Runs
import Netperf.Lib.Sums
import Netperf.StreamWorker
/-!
# The accounts of a worker

What the counters of the select loop say of the writes and reads that are over,
at every point of the loop and in the results of the stream. `Load.io_measured`
has said what one of them changes.
-/

namespace Netperf

open Runs

/-! ## What is accounted for -/

/-- A write or read that is over, and the time since the one before: `now - t_prev`. -/
structure Completion where
  bytesCount : Nat
  now : Nat
  gap : Nat
deriving DecidableEq

/-- The writes and reads that the event ends. -/
def StreamWorker.completed (w : StreamWorker) : StreamEvent → List Completion
  | .io bytesCount now =>
    match w.pc with
    | .loading l => [⟨bytesCount, now, now - l.tPrev⟩]
    | _ => []
  | _ => []

namespace Completion

def transferred (ios : List Completion) : Nat := (ios.map bytesCount).sum

/-- Those that transferred something. The clock is read for no other. -/
def moved (ios : List Completion) : List Completion := ios.filter (fun io => 0 < io.bytesCount)

def last (startTime : Nat) (ios : List Completion) : Nat := ((moved ios).map now).getLastD startTime

/-- The clock does not go back. -/
def Ordered (startTime : Nat) (ios : List Completion) : Prop := (startTime :: ios.map now).Pairwise (· ≤ ·)

instance (startTime : Nat) (ios : List Completion) : Decidable (Ordered startTime ios) :=
  inferInstanceAs (Decidable (List.Pairwise _ _))

variable {startTime : Nat} {ios : List Completion} {io : Completion}

theorem last_snoc (startTime : Nat) (ios : List Completion) (h : 0 < io.bytesCount) :
    last startTime (ios ++ [io]) = io.now := by
  simp [last, moved, h]

theorem transferred_snoc (ios : List Completion) (io : Completion) :
    transferred (ios ++ [io]) = transferred ios + io.bytesCount := by
  simp [transferred]

theorem moved_snoc (h : 0 < io.bytesCount) : moved (ios ++ [io]) = moved ios ++ [io] := by
  simp [moved, h]

theorem moved_snoc_zero (h : io.bytesCount = 0) : moved (ios ++ [io]) = moved ios := by
  simp [moved, h]

theorem moved_length_le (ios : List Completion) : (moved ios).length ≤ transferred ios := by
  unfold moved transferred
  rw [← List.countP_eq_length_filter]
  exact Sums.countP_pos_le_sum bytesCount ios

theorem Ordered.front {os : List Completion} (h : Ordered startTime (ios ++ os)) : Ordered startTime ios := by
  unfold Ordered at *
  rw [List.map_append, ← List.cons_append, List.pairwise_append] at h
  exact h.1

theorem last_mem (startTime : Nat) (ios : List Completion) : last startTime ios ∈ startTime :: ios.map now := by
  unfold last
  cases hl : ((moved ios).map now).getLast? with
  | none =>
    rw [List.getLastD_eq_getLast?, hl]
    exact List.mem_cons_self
  | some t =>
    rw [List.getLastD_eq_getLast?, hl]
    have hsub : ((moved ios).map now).Sublist (ios.map now) := List.filter_sublist.map now
    exact List.mem_cons_of_mem _ (hsub.subset (List.mem_of_getLast? hl))

theorem Ordered.le_last (h : Ordered startTime ios) : startTime ≤ last startTime ios := by
  unfold Ordered at h
  rw [List.pairwise_cons] at h
  rcases List.mem_cons.1 (last_mem startTime ios) with hs | hm
  · exact Nat.le_of_eq hs.symm
  · exact h.1 _ hm

theorem Ordered.last_le (h : Ordered startTime (ios ++ [io])) : last startTime ios ≤ io.now := by
  unfold Ordered at h
  rw [List.map_append, ← List.cons_append, List.pairwise_append] at h
  exact h.2.2 _ (last_mem startTime ios) _ (by simp)

end Completion

/-! ## What the counters say -/

/-- What the loop's variables say of the completions so far. -/
structure Load.Accounts (measure : Bool) (startTime : Nat) (ios : List Completion) (l : Load) : Prop where
  started : l.startTime = startTime
  bytes : l.bytesTransferred = Completion.transferred ios
  printed : l.bytesTransferred = (l.printed.map Interval.bytesTransferred).sum + l.currentIntervalBytesTransferred
  calls : l.syscalls = (Completion.moved ios).length
  printedCalls : l.syscalls = (l.printed.map Interval.syscalls).sum + l.currentIntervalSyscalls
  sampled : measure = true → l.samples.length + l.warmupDiscarded = l.syscalls
  previous : measure = true → l.tPrev = Completion.last startTime ios
  gaps : measure = true →
    ((Completion.moved ios).map Completion.gap).sum = Completion.last startTime ios - startTime
  windows : measure = true → (l.tput.map Prod.fst).sum + l.winBytes = l.bytesTransferred
  closed : ∀ w ∈ l.tput, Load.win ≤ w.2 ∧ w.2 ≠ 0
  unmeasured : measure = false → l.samples = [] ∧ l.warmupDiscarded = 0 ∧ l.tput = [] ∧ l.winBytes = 0

/-- No counter has wrapped. -/
structure Load.Fits (l : Load) : Prop where
  bytes : l.bytesTransferred < 2 ^ 64
  calls : l.syscalls < 2 ^ 64
  intervalBytes : l.currentIntervalBytesTransferred < 2 ^ 64
  intervalCalls : l.currentIntervalSyscalls < 2 ^ 64
  discarded : l.warmupDiscarded < 2 ^ 64
  windowBytes : l.winBytes < 2 ^ 64

namespace Load

open Completion

variable {startTime : Nat} {measure : Bool} {ios : List Completion} {params : TestParameters} {l : Load} {n now : Nat}

theorem Accounts.new (measure : Bool) (startTime base : Nat) : (new startTime base).Accounts measure startTime [] := by
  constructor <;> simp [Load.new, transferred, moved, last]

/-- A tick only moves the bytes of its interval from one place to another. -/
theorem Accounts.tick (h : l.Accounts measure startTime ios) (t : Nat) : (l.tick t).Accounts measure startTime ios := by
  have hp := h.printed
  have hc := h.printedCalls
  exact { h with
    printed := by simpa [Load.tick] using hp
    printedCalls := by simpa [Load.tick] using hc }

theorem Accounts.unmoved (h : l.Accounts measure startTime ios) (gap : Nat) :
    l.Accounts measure startTime (ios ++ [⟨0, now, gap⟩]) := by
  have hmoved : moved (ios ++ [⟨0, now, gap⟩]) = moved ios := moved_snoc_zero rfl
  have hlast : last startTime (ios ++ [⟨0, now, gap⟩]) = last startTime ios := by
    unfold last
    rw [hmoved]
  exact { h with
    bytes := by rw [transferred_snoc]; exact h.bytes
    calls := by rw [hmoved]; exact h.calls
    previous := by rw [hlast]; exact h.previous
    gaps := by rw [hmoved, hlast]; exact h.gaps }

theorem Accounts.counted (h : l.Accounts params.measureLatency startTime ios) (hm : params.measureLatency = false)
    (hn : 0 < n) (gap : Nat) :
    (l.io params n now).Accounts params.measureLatency startTime (ios ++ [⟨n, now, gap⟩]) := by
  have hbytes := h.bytes
  have hprinted := h.printed
  have hcalls := h.calls
  have hprintedCalls := h.printedCalls
  rw [io_unmeasured l hm hn now]
  exact { h with
    bytes := by rw [transferred_snoc, ← hbytes]
    printed := by dsimp only; omega
    calls := by rw [moved_snoc hn, List.length_append, ← hcalls]; rfl
    printedCalls := by dsimp only; omega
    sampled := by simp [hm]
    previous := by simp [hm]
    gaps := by simp [hm]
    windows := by simp [hm] }

theorem Accounts.measured (h : l.Accounts params.measureLatency startTime ios) (hm : params.measureLatency = true)
    (hn : 0 < n) (ho : Ordered startTime (ios ++ [⟨n, now, now - l.tPrev⟩])) :
    (l.io params n now).Accounts params.measureLatency startTime (ios ++ [⟨n, now, now - l.tPrev⟩]) := by
  have hbytes := h.bytes
  have hprinted := h.printed
  have hcalls := h.calls
  have hprintedCalls := h.printedCalls
  have hsampled := h.sampled hm
  have hwindows := h.windows hm
  obtain ⟨tput, winStart, winBytes, samples, warmupDiscarded, hio, hwin, hclosed, hcount⟩ := io_measured l hm hn now
  rw [hio]
  constructor
  · exact h.started
  · rw [transferred_snoc, ← hbytes]
  · dsimp only
    omega
  · rw [moved_snoc hn, List.length_append, ← hcalls]
    rfl
  · dsimp only
    omega
  · intro _
    dsimp only
    omega
  · intro _
    rw [last_snoc startTime ios hn]
  · -- the gaps so far end at the completion before, where this one starts
    intro _
    have hstart := ho.front.le_last
    have hlast : last startTime ios ≤ now := ho.last_le
    rw [moved_snoc hn, last_snoc startTime ios hn, List.map_append, List.sum_append, h.gaps hm, List.map_singleton,
      List.sum_singleton, h.previous hm]
    dsimp only
    omega
  · intro _
    dsimp only
    omega
  · intro w hw
    rcases hclosed w hw with hw | hw
    · exact h.closed w hw
    · refine ⟨hw, ?_⟩
      unfold win nsPerMilli at hw
      omega
  · simp [hm]

theorem Accounts.io (h : l.Accounts params.measureLatency startTime ios)
    (ho : Ordered startTime (ios ++ [⟨n, now, now - l.tPrev⟩])) :
    (l.io params n now).Accounts params.measureLatency startTime (ios ++ [⟨n, now, now - l.tPrev⟩]) := by
  rcases Nat.eq_zero_or_pos n with rfl | hn
  · exact h.unmoved _
  · cases hm : params.measureLatency with
    | false => exact hm ▸ h.counted hm hn _
    | true => exact hm ▸ h.measured hm hn ho

/-- The bytes bound every counter. -/
theorem Accounts.fits (h : l.Accounts measure startTime ios) (ht : transferred ios < 2 ^ 64) : l.Fits := by
  have hbytes := h.bytes
  have hprinted := h.printed
  have hcalls := h.calls
  have hprintedCalls := h.printedCalls
  have hmoved := moved_length_le ios
  have hdiscarded : l.warmupDiscarded ≤ l.syscalls ∧ l.winBytes ≤ l.bytesTransferred := by
    cases measure with
    | true =>
      have hsampled := h.sampled rfl
      have hwindows := h.windows rfl
      omega
    | false =>
      obtain ⟨-, hd, -, hw⟩ := h.unmeasured rfl
      omega
  constructor <;> omega

end Load

/-! ## Runs of a worker -/

namespace StreamWorker

variable {rate : Nat → Nat → Nat} {w u v : StreamWorker} {e : StreamEvent} {measure : Bool} {startTime : Nat} {ios : List Completion}

/-- The loop's variables meet `P`: while it runs, and as the results of the
stream were made of them. -/
structure Variables (rate : Nat → Nat → Nat) (P : Load → Prop) (w : StreamWorker) : Prop where
  loading : ∀ l, w.pc = .loading l → P l
  left : ∀ stats, w.pc = .draining stats ∨ w.pc = .done (.ok stats) → ∃ l now, P l ∧ stats = w.stats rate l now

theorem Variables.mono {P Q : Load → Prop} (h : w.Variables rate P) (hPQ : ∀ l, P l → Q l) : w.Variables rate Q := by
  constructor
  · intro l hl
    exact hPQ l (h.loading l hl)
  · intro stats hs
    obtain ⟨l, now, hP, heq⟩ := h.left stats hs
    exact ⟨l, now, hPQ l hP, heq⟩

theorem Variables.leave {P : Load → Prop} {l : Load} (h : P l) (now : Nat) : (w.leave rate l now).Variables rate P := by
  constructor
  · intro l' hl'
    unfold StreamWorker.leave at hl'
    dsimp only at hl'
    split at hl' <;> cases hl'
  · intro stats hs
    refine ⟨l, now, h, ?_⟩
    unfold StreamWorker.leave at hs
    dsimp only at hs
    split at hs <;> simp at hs <;> exact hs.symm

/-- The loop has started, and its variables account for the completions. -/
structure Accounted (rate : Nat → Nat → Nat) (measure : Bool) (startTime : Nat) (ios : List Completion) (w : StreamWorker) :
    Prop where
  started : w.pc ≠ .spawned ∧ w.pc ≠ .waiting
  measures : w.params.measureLatency = measure
  accounts : w.Variables rate (Load.Accounts measure startTime ios)

theorem Accounted.leave (hm : w.params.measureLatency = measure) {l : Load} (h : l.Accounts measure startTime ios)
    (now : Nat) : (w.leave rate l now).Accounted rate measure startTime ios := by
  refine ⟨?_, hm, Variables.leave h now⟩
  unfold StreamWorker.leave
  dsimp only
  split <;> simp

theorem Accounted.step (ha : w.Accounted rate measure startTime ios) (h : Step rate w e u)
    (ho : Completion.Ordered startTime (ios ++ w.completed e)) :
    u.Accounted rate measure startTime (ios ++ w.completed e) := by
  obtain ⟨⟨hspawned, hwaiting⟩, rfl, hloading, hleft⟩ := ha
  cases h with
  | filled hpc | allocated hpc | unfilled hpc => exact absurd hpc hspawned
  | load hpc | unstarted hpc => exact absurd hpc hwaiting
  | again | drains =>
    simp only [completed, List.append_nil]
    exact ⟨⟨hspawned, hwaiting⟩, rfl, hloading, hleft⟩
  | terminated hpc | timeUp hpc =>
    simp only [completed, List.append_nil]
    exact Accounted.leave rfl (hloading _ hpc) _
  | @ticked l t hpc =>
    simp only [completed, List.append_nil]
    refine ⟨by simp, rfl, ?_, by simp⟩
    rintro l' ⟨⟩
    exact (hloading l hpc).tick t
  | @moved l n now hpc =>
    simp only [completed, hpc] at ho ⊢
    refine ⟨by simp, rfl, ?_, by simp⟩
    rintro l' ⟨⟩
    exact (hloading l hpc).io ho
  | @closed l now hpc =>
    simp only [completed, hpc] at ho ⊢
    exact Accounted.leave rfl ((hloading l hpc).io ho) now
  | @drained stats hpc =>
    simp only [completed, List.append_nil]
    refine ⟨by simp, rfl, by simp, ?_⟩
    intro stats' hs
    obtain rfl : stats = stats' := by simpa using hs
    exact hleft stats (.inl hpc)
  | failed | panicked =>
    simp only [completed, List.append_nil]
    exact ⟨by simp, rfl, by simp, by simp⟩

theorem accounted_run {es : List StreamEvent} (ha : v.Accounted rate measure startTime []) (h : Run (step rate) Any v es u)
    (ho : Completion.Ordered startTime (log (step rate) completed v es)) :
    u.Accounted rate measure startTime (log (step rate) completed v es) := by
  revert ho
  apply h.inv_log (fun ios w => Completion.Ordered startTime ios → w.Accounted rate measure startTime ios)
  · intro _
    exact ha
  · intro ios w e u ih _ hstep ho
    exact (ih ho.front).step (step_cases hstep) ho

/-- At every point after `StartLoad` the counters of the loop, and the results
made of them, account for the writes and reads that are over. -/
theorem accounting {base : Nat} {es : List StreamEvent} (hw : w.pc = .waiting)
    (hstart : w.step rate (.startLoad startTime base) = some v) (h : Run (step rate) Any v es u)
    (ho : Completion.Ordered startTime (log (step rate) completed v es))
    (ht : Completion.transferred (log (step rate) completed v es) < 2 ^ 64) :
    u.Variables rate (fun l =>
      l.Accounts w.params.measureLatency startTime (log (step rate) completed v es) ∧ l.Fits) := by
  have hv : v.Accounted rate w.params.measureLatency startTime [] := by
    cases step_cases hstart with
    | load =>
      refine ⟨by simp, rfl, ?_, by simp⟩
      rintro l ⟨⟩
      exact Load.Accounts.new _ _ _
    | again hpc => simp [hw] at hpc
  apply (accounted_run hv h ho).accounts.mono
  intro l hl
  exact ⟨hl, hl.fits ht⟩

/-- A sender that measures: one window closes in the warm-up, one after it. -/
theorem accounting_measured :
    ∃ w v u : StreamWorker, w.step (fun _ _ => 0) (.startLoad 5 0) = some v ∧
      Run (step (fun _ _ => 0)) Any v
        [.io 4 30000005, .startLoad 7 0, .tick 1000000005, .io 3 1500000005, .deadline 2000000005] u ∧
      u.Variables (fun _ _ => 0) (fun l =>
        l.Accounts true 5 [⟨4, 30000005, 30000000⟩, ⟨3, 1500000005, 1470000000⟩] ∧ l.Fits) := by
  let w : StreamWorker :=
    { new { uploadParams 1 with timeSeconds := 10, measureLatency := true, blockSize := 4 } true with pc := .waiting }
  have hstart : w.step (fun _ _ => 0) (.startLoad 5 0) = some { w with pc := .loading (.new 5 0) } := rfl
  have hlog : log (step (fun _ _ => 0)) completed { w with pc := .loading (.new 5 0) }
      [.io 4 30000005, .startLoad 7 0, .tick 1000000005, .io 3 1500000005, .deadline 2000000005] =
        [⟨4, 30000005, 30000000⟩, ⟨3, 1500000005, 1470000000⟩] := by
    decide +kernel
  obtain ⟨u, h, -⟩ := exists_run_of_exec (step (fun _ _ => 0)) Any { w with pc := .loading (.new 5 0) }
    [.io 4 30000005, .startLoad 7 0, .tick 1000000005, .io 3 1500000005, .deadline 2000000005] (fun _ => true)
    (by decide +kernel)
  have hu := accounting rfl hstart h (by rw [hlog]; decide +kernel) (by rw [hlog]; decide +kernel)
  rw [hlog] at hu
  exact ⟨w, _, u, hstart, h, hu⟩

end StreamWorker

end Netperf
