import Netperf.Controller
import Netperf.Stats
/-!
# Inside a stream worker

`run_worker` with the counters and the clock of its select loop. Times are
nanoseconds. The counters are unbounded here; below 2^64 bytes a `u64` holds
each of them at every point of a run (`Load.Accounts.fits`). The rate of a window
is an `f64` quotient, given here as a function of the window's bytes and length.
-/

namespace Netperf

/-! ## The select loop (`stream_worker.rs`) -/

/-- A line of `print_stats`. -/
structure Interval where
  offsetMillis : Nat
  durationMillis : Nat
  bytesTransferred : Nat
  syscalls : Nat
deriving DecidableEq

/-- What the select loop updates. Of a closed goodput window `tput` keeps the
bytes and the length. -/
structure Load where
  startTime : Nat
  bytesTransferred : Nat
  syscalls : Nat
  lastTick : Nat
  currentIntervalBytesTransferred : Nat
  currentIntervalSyscalls : Nat
  printed : List Interval
  samples : List Nat
  tput : List (Nat × Nat)
  clockBaselineNs : Nat
  warmupDiscarded : Nat
  tPrev : Nat
  winStart : Nat
  winBytes : Nat
deriving DecidableEq

namespace Load

def new (startTime clockBaselineNs : Nat) : Load :=
  { startTime, bytesTransferred := 0, syscalls := 0, lastTick := startTime, currentIntervalBytesTransferred := 0,
    currentIntervalSyscalls := 0, printed := [], samples := [], tput := [], clockBaselineNs, warmupDiscarded := 0,
    tPrev := startTime, winStart := startTime, winBytes := 0 }

def win : Nat := 10 * nsPerMilli

def warmup (params : TestParameters) : Nat := if params.timeSeconds > 2 then nsPerSec else 0

/-- Closes the window when it is long enough. -/
def window (l : Load) (bytesCount now : Nat) : Load :=
  let winBytes := l.winBytes + bytesCount
  let winElapsed := now - l.winStart
  if win ≤ winElapsed then { l with tput := l.tput ++ [(winBytes, winElapsed)], winStart := now, winBytes := 0 }
  else { l with winBytes := winBytes }

def sample (l : Load) (params : TestParameters) (now : Nat) : Load :=
  let l := if warmup params ≤ now - l.startTime then { l with samples := l.samples ++ [now - l.tPrev - l.clockBaselineNs] }
    else { l with warmupDiscarded := l.warmupDiscarded + 1 }
  { l with tPrev := now }

/-- A write or read that transferred `bytesCount`. -/
def io (l : Load) (params : TestParameters) (bytesCount now : Nat) : Load :=
  let l := { l with
    currentIntervalBytesTransferred := l.currentIntervalBytesTransferred + bytesCount
    bytesTransferred := l.bytesTransferred + bytesCount }
  if bytesCount > 0 then
    let l := { l with syscalls := l.syscalls + 1, currentIntervalSyscalls := l.currentIntervalSyscalls + 1 }
    if params.measureLatency then (l.window bytesCount now).sample params now else l
  else l

def tick (l : Load) (tick : Nat) : Load :=
  { l with
    printed := l.printed ++ [⟨(l.lastTick - l.startTime) / nsPerMilli, (tick - l.lastTick) / nsPerMilli,
      l.currentIntervalBytesTransferred, l.currentIntervalSyscalls⟩]
    currentIntervalBytesTransferred := 0
    currentIntervalSyscalls := 0
    lastTick := tick }

def latency (rate : Nat → Nat → Nat) (l : Load) : LatencyStats :=
  { intervalNs := .fromSamples l.samples
    throughputBps := .fromSamples (l.tput.map (fun w => rate w.1 w.2))
    clockBaselineNs := l.clockBaselineNs
    warmupDiscarded := l.warmupDiscarded }

section
variable {params : TestParameters} {n : Nat}

/-- The window has taken the bytes, and was long enough if it is closed. -/
theorem window_of (l : Load) (n now : Nat) :
    ∃ tput winStart winBytes, l.window n now = { l with tput, winStart, winBytes } ∧
      (tput.map Prod.fst).sum + winBytes = (l.tput.map Prod.fst).sum + l.winBytes + n ∧
      ∀ w ∈ tput, w ∈ l.tput ∨ win ≤ w.2 := by
  unfold window
  dsimp only
  split
  · rename_i hlong
    refine ⟨_, _, _, rfl, ?_, ?_⟩
    · rw [List.map_append, List.sum_append, List.map_singleton, List.sum_singleton]
      omega
    · intro w hw
      rw [List.mem_append, List.mem_singleton] at hw
      rcases hw with hw | rfl
      · exact .inl hw
      · exact .inr hlong
  · exact ⟨_, _, _, rfl, by omega, fun w hw => .inl hw⟩

/-- The gap is a sample or has been discarded. -/
theorem sample_of (l : Load) (params : TestParameters) (now : Nat) :
    ∃ samples warmupDiscarded, l.sample params now = { l with samples, warmupDiscarded, tPrev := now } ∧
      samples.length + warmupDiscarded = l.samples.length + l.warmupDiscarded + 1 := by
  unfold sample
  dsimp only
  split
  · refine ⟨_, _, rfl, ?_⟩
    simp only [List.length_append, List.length_singleton]
    omega
  · refine ⟨_, _, rfl, ?_⟩
    dsimp only
    omega

theorem io_zero (l : Load) (params : TestParameters) (now : Nat) : l.io params 0 now = l := rfl

theorem io_unmeasured (l : Load) (hm : params.measureLatency = false) (hn : 0 < n) (now : Nat) :
    l.io params n now = { l with
      currentIntervalBytesTransferred := l.currentIntervalBytesTransferred + n
      bytesTransferred := l.bytesTransferred + n
      syscalls := l.syscalls + 1
      currentIntervalSyscalls := l.currentIntervalSyscalls + 1 } := by
  unfold io
  simp [hm, hn]

/-- What a completion changes when the latency is measured. -/
theorem io_measured (l : Load) (hm : params.measureLatency = true) (hn : 0 < n) (now : Nat) :
    ∃ tput winStart winBytes samples warmupDiscarded,
      l.io params n now = { l with
        currentIntervalBytesTransferred := l.currentIntervalBytesTransferred + n
        bytesTransferred := l.bytesTransferred + n
        syscalls := l.syscalls + 1
        currentIntervalSyscalls := l.currentIntervalSyscalls + 1
        tput, winStart, winBytes, samples, warmupDiscarded, tPrev := now } ∧
      (tput.map Prod.fst).sum + winBytes = (l.tput.map Prod.fst).sum + l.winBytes + n ∧
      (∀ w ∈ tput, w ∈ l.tput ∨ win ≤ w.2) ∧
      samples.length + warmupDiscarded = l.samples.length + l.warmupDiscarded + 1 := by
  let counted := { l with
    currentIntervalBytesTransferred := l.currentIntervalBytesTransferred + n
    bytesTransferred := l.bytesTransferred + n
    syscalls := l.syscalls + 1
    currentIntervalSyscalls := l.currentIntervalSyscalls + 1 }
  obtain ⟨tput, winStart, winBytes, hw, hbytes, hclosed⟩ := window_of counted n now
  obtain ⟨samples, warmupDiscarded, hs, hcount⟩ := sample_of (counted.window n now) params now
  refine ⟨tput, winStart, winBytes, samples, warmupDiscarded, ?_, hbytes, hclosed, ?_⟩
  · have hio : l.io params n now = (counted.window n now).sample params now := by
      unfold io
      simp [hm, hn, counted]
    rw [hio, hs, hw]
  · rw [hw] at hcount
    exact hcount

/-- A completion touches neither the marks of the ticks nor what has been printed. -/
theorem io_of (l : Load) (params : TestParameters) (n now : Nat) :
    ∃ syscalls currentIntervalSyscalls tput winStart winBytes samples warmupDiscarded tPrev,
      l.io params n now = { l with
        currentIntervalBytesTransferred := l.currentIntervalBytesTransferred + n
        bytesTransferred := l.bytesTransferred + n
        syscalls, currentIntervalSyscalls, tput, winStart, winBytes, samples, warmupDiscarded, tPrev } := by
  rcases Nat.eq_zero_or_pos n with rfl | hn
  · exact ⟨_, _, _, _, _, _, _, _, io_zero l params now⟩
  · cases hm : params.measureLatency with
    | false => exact ⟨_, _, _, _, _, _, _, _, io_unmeasured l hm hn now⟩
    | true =>
      obtain ⟨_, _, _, _, _, hio, -⟩ := io_measured l hm hn now
      exact ⟨_, _, _, _, _, _, _, _, hio⟩

@[simp] theorem io_bytesTransferred (l : Load) (params : TestParameters) (n now : Nat) :
    (l.io params n now).bytesTransferred = l.bytesTransferred + n := by
  obtain ⟨_, _, _, _, _, _, _, _, h⟩ := l.io_of params n now
  rw [h]

@[simp] theorem io_lastTick (l : Load) (params : TestParameters) (n now : Nat) :
    (l.io params n now).lastTick = l.lastTick := by
  obtain ⟨_, _, _, _, _, _, _, _, h⟩ := l.io_of params n now
  rw [h]

end

@[simp] theorem tick_bytesTransferred (l : Load) (t : Nat) : (l.tick t).bytesTransferred = l.bytesTransferred := rfl

end Load

/-- The awaits of `run_worker`. -/
inductive StreamPc where
  | spawned
  /-- `receiver.recv()`, for `StartLoad`. -/
  | waiting
  /-- The `select!`. -/
  | loading (l : Load)
  /-- The reads of the drain loop. -/
  | draining (stats : StreamStats)
  | done (r : TaskResult)
deriving DecidableEq

/-- Where the task is, without its counters. -/
def StreamPc.position : StreamPc → WorkerPc
  | .spawned => .spawned
  | .waiting => .waiting
  | .loading _ => .loading
  | .draining stats => .draining stats
  | .done r => .done r

structure StreamWorker where
  params : TestParameters
  isSending : Bool
  buffer : List UInt8
  pc : StreamPc
deriving DecidableEq

inductive StreamEvent where
  /-- The buffer is there; a sender has filled it with these random bytes. -/
  | start (random : List UInt8)
  | startLoad (now clockBaselineNs : Nat)
  /-- `Terminate`, or the controller dropped the channel. -/
  | terminate (now : Nat)
  | deadline (now : Nat)
  | tick (tick : Nat)
  /-- The pending write or read is over and has transferred `bytesCount`. -/
  | io (bytesCount now : Nat)
  /-- A read of the drain loop. -/
  | drain (bytesCount : Nat)
  /-- `getrandom::fill`, a write or a read fails. -/
  | fail
  | panic
deriving DecidableEq

namespace StreamWorker
variable (rate : Nat → Nat → Nat)

def new (params : TestParameters) (isSending : Bool) : StreamWorker :=
  { params, isSending, buffer := List.replicate params.blockSize 0, pc := .spawned }

def stats (w : StreamWorker) (l : Load) (now : Nat) : StreamStats :=
  { sender := w.isSending
    durationMillis := (now - l.startTime) / nsPerMilli
    bytesTransferred := l.bytesTransferred
    syscalls := l.syscalls
    latency := if w.params.measureLatency then some (l.latency rate) else none }

/-- What follows the select loop. -/
def leave (w : StreamWorker) (l : Load) (now : Nat) : StreamWorker :=
  { w with pc := if w.isSending then .done (.ok (w.stats rate l now)) else .draining (w.stats rate l now) }

/-- The branches of the `select!` come in any order here, also where `biased`
fixes one. -/
def step (w : StreamWorker) : StreamEvent → Option StreamWorker
  | .start random =>
    match w.pc with
    | .spawned =>
      if w.isSending then
        if random.length = w.buffer.length then some { w with buffer := random, pc := .waiting } else none
      else some { w with pc := .waiting }
    | _ => none
  | .startLoad now clockBaselineNs =>
    match w.pc with
    | .waiting => some { w with pc := .loading (.new now (if w.params.measureLatency then clockBaselineNs else 0)) }
    -- only warned about
    | .loading _ => some w
    | _ => none
  | .terminate now =>
    match w.pc with
    | .waiting => some { w with pc := .done .err }
    | .loading l => some (w.leave rate l now)
    | _ => none
  | .deadline now =>
    match w.pc with
    | .loading l => some (w.leave rate l now)
    | _ => none
  | .tick tick =>
    match w.pc with
    | .loading l => some { w with pc := .loading (l.tick tick) }
    | _ => none
  | .io bytesCount now =>
    match w.pc with
    | .loading l =>
      if bytesCount ≤ w.buffer.length then
        let l := l.io w.params bytesCount now
        -- zero means that the connection is terminated
        some (if bytesCount > 0 then { w with pc := .loading l } else w.leave rate l now)
      else none
    | _ => none
  | .drain bytesCount =>
    match w.pc with
    | .draining stats =>
      if bytesCount ≤ w.buffer.length then some (if bytesCount ≠ 0 then w else { w with pc := .done (.ok stats) })
      else none
    | _ => none
  | .fail =>
    match w.pc with
    | .spawned => if w.isSending then some { w with pc := .done .err } else none
    | .loading _ | .draining _ => some { w with pc := .done .err }
    | _ => none
  | .panic =>
    match w.pc with
    | .done _ => none
    | _ => some { w with pc := .done .panicked }

/-- Everything an event can do: the branches of `step`, one constructor each. -/
inductive Step (rate : Nat → Nat → Nat) : StreamWorker → StreamEvent → StreamWorker → Prop
  | filled {w random} : w.pc = .spawned → w.isSending = true → random.length = w.buffer.length →
      Step rate w (.start random) { w with buffer := random, pc := .waiting }
  | allocated {w random} : w.pc = .spawned → w.isSending = false → Step rate w (.start random) { w with pc := .waiting }
  | load {w now clockBaselineNs} : w.pc = .waiting →
      Step rate w (.startLoad now clockBaselineNs)
        { w with pc := .loading (.new now (if w.params.measureLatency then clockBaselineNs else 0)) }
  | again {w l now clockBaselineNs} : w.pc = .loading l → Step rate w (.startLoad now clockBaselineNs) w
  | unstarted {w now} : w.pc = .waiting → Step rate w (.terminate now) { w with pc := .done .err }
  | terminated {w l now} : w.pc = .loading l → Step rate w (.terminate now) (w.leave rate l now)
  | timeUp {w l now} : w.pc = .loading l → Step rate w (.deadline now) (w.leave rate l now)
  | ticked {w l tick} : w.pc = .loading l → Step rate w (.tick tick) { w with pc := .loading (l.tick tick) }
  | moved {w l n now} : w.pc = .loading l → n ≤ w.buffer.length → n > 0 →
      Step rate w (.io n now) { w with pc := .loading (l.io w.params n now) }
  | closed {w l now} : w.pc = .loading l → Step rate w (.io 0 now) (w.leave rate (l.io w.params 0 now) now)
  | drains {w stats n} : w.pc = .draining stats → n ≤ w.buffer.length → n ≠ 0 → Step rate w (.drain n) w
  | drained {w stats} : w.pc = .draining stats → Step rate w (.drain 0) { w with pc := .done (.ok stats) }
  | unfilled {w} : w.pc = .spawned → w.isSending = true → Step rate w .fail { w with pc := .done .err }
  | failed {w} : (∃ l, w.pc = .loading l) ∨ (∃ stats, w.pc = .draining stats) →
      Step rate w .fail { w with pc := .done .err }
  | panicked {w} : (∀ r, w.pc ≠ .done r) → Step rate w .panic { w with pc := .done .panicked }

variable {rate} in
/-- An enabled event is one of the transitions. -/
theorem step_cases {w u : StreamWorker} {e : StreamEvent} (h : w.step rate e = some u) : Step rate w e u := by
  cases e with
  | start random =>
    simp only [step] at h
    split at h
    · rename_i hpc
      split at h
      · rename_i hs
        simp only [Option.ite_none_right_eq_some, Option.some.injEq] at h
        obtain ⟨hlen, rfl⟩ := h
        exact .filled hpc hs hlen
      · rename_i hs
        exact Option.some.inj h ▸ .allocated hpc (by simpa using hs)
    · cases h
  | startLoad now clockBaselineNs =>
    simp only [step] at h
    split at h
    · rename_i hpc
      exact Option.some.inj h ▸ .load hpc
    · rename_i l hpc
      exact Option.some.inj h ▸ .again hpc
    · cases h
  | terminate now =>
    simp only [step] at h
    split at h
    · rename_i hpc
      exact Option.some.inj h ▸ .unstarted hpc
    · rename_i l hpc
      exact Option.some.inj h ▸ .terminated hpc
    · cases h
  | deadline now =>
    simp only [step] at h
    split at h
    · rename_i l hpc
      exact Option.some.inj h ▸ .timeUp hpc
    · cases h
  | tick tick =>
    simp only [step] at h
    split at h
    · rename_i l hpc
      exact Option.some.inj h ▸ .ticked hpc
    · cases h
  | io n now =>
    simp only [step] at h
    split at h
    · rename_i l hpc
      simp only [Option.ite_none_right_eq_some, Option.some.injEq] at h
      obtain ⟨hlen, rfl⟩ := h
      split
      · rename_i hn
        exact .moved hpc hlen hn
      · rename_i hn
        obtain rfl : n = 0 := by omega
        exact .closed hpc
    · cases h
  | drain n =>
    simp only [step] at h
    split at h
    · rename_i stats hpc
      simp only [Option.ite_none_right_eq_some, Option.some.injEq] at h
      obtain ⟨hlen, rfl⟩ := h
      split
      · rename_i hn
        exact .drains hpc hlen hn
      · rename_i hn
        obtain rfl : n = 0 := by omega
        exact .drained hpc
    · cases h
  | fail =>
    simp only [step] at h
    split at h
    · rename_i hpc
      simp only [Option.ite_none_right_eq_some, Option.some.injEq] at h
      obtain ⟨hs, rfl⟩ := h
      exact .unfilled hpc hs
    · rename_i l hpc
      exact Option.some.inj h ▸ .failed (.inl ⟨l, hpc⟩)
    · rename_i stats hpc
      exact Option.some.inj h ▸ .failed (.inr ⟨stats, hpc⟩)
    · cases h
  | panic =>
    simp only [step] at h
    split at h
    · cases h
    · rename_i hpc
      exact Option.some.inj h ▸ .panicked (fun r hr => hpc r hr)

/-! ## The task of a test -/

/-- The task `v` of a test is at the place of `w`. -/
def Stands (w : StreamWorker) (v : Worker) : Prop := v.isSending = w.isSending ∧ v.pc = w.pc.position

/-- What the event takes from the task's channel is there. -/
def Offered (w : StreamWorker) (v : Worker) (channelOpen : Bool) : StreamEvent → Prop
  | .startLoad _ _ => ∃ rest, v.inbox = .startLoad :: rest
  | .terminate _ => w.pc = .waiting → (∃ rest, v.inbox = .terminate :: rest) ∨ (v.inbox = [] ∧ channelOpen = false)
  | _ => True

theorem Stands.leave (rate : Nat → Nat → Nat) {w : StreamWorker} {v : Worker} (hs : v.isSending = w.isSending)
    (hpc : v.pc = .loading) (channelOpen : Bool) (l : Load) (now : Nat) :
    ∃ v', (w.leave rate l now).Stands v' ∧ ∃ ev, v.step channelOpen ev = some v' := by
  cases hsend : w.isSending with
  | true =>
    refine ⟨{ v with pc := .done (.ok (w.stats rate l now)) }, ⟨hs, ?_⟩, .stop (w.stats rate l now), ?_⟩
    · simp [StreamWorker.leave, hsend, StreamPc.position]
    · simp [Worker.step, hpc, hs, hsend, stats]
  | false =>
    refine ⟨{ v with pc := .draining (w.stats rate l now) }, ⟨hs, ?_⟩, .stop (w.stats rate l now), ?_⟩
    · simp [StreamWorker.leave, hsend, StreamPc.position]
    · simp [Worker.step, hpc, hs, hsend, stats]

/-- What `run_worker` does is what the task of a test does. -/
theorem stands_step {rate : Nat → Nat → Nat} {w u : StreamWorker} {e : StreamEvent} (h : Step rate w e u) {v : Worker}
    {channelOpen : Bool} (hv : w.Stands v) (ho : w.Offered v channelOpen e) :
    ∃ v', u.Stands v' ∧ (v' = v ∨ ∃ ev, v.step channelOpen ev = some v') := by
  obtain ⟨hs, hpc⟩ := hv
  cases h with
  | filled hw | allocated hw =>
    rw [hw] at hpc
    refine ⟨{ v with pc := .waiting }, ⟨hs, rfl⟩, .inr ⟨.start, ?_⟩⟩
    simp [Worker.step, hpc, StreamPc.position]
  | load hw =>
    obtain ⟨rest, hi⟩ := ho
    rw [hw] at hpc
    refine ⟨{ v with inbox := rest, pc := .loading }, ⟨hs, rfl⟩, .inr ⟨.message, ?_⟩⟩
    simp [Worker.step, hpc, hi, StreamPc.position]
  | again hw =>
    obtain ⟨rest, hi⟩ := ho
    refine ⟨{ v with inbox := rest }, ⟨hs, hpc⟩, .inr ⟨.message, ?_⟩⟩
    simp [Worker.step, hpc, hw, hi, StreamPc.position]
  | unstarted hw =>
    rw [hw] at hpc
    rcases ho hw with ⟨rest, hi⟩ | ⟨hi, hclosed⟩
    · refine ⟨{ v with inbox := rest, pc := .done .err }, ⟨hs, rfl⟩, .inr ⟨.message, ?_⟩⟩
      simp [Worker.step, hpc, hi, StreamPc.position]
    · refine ⟨{ v with pc := .done .err }, ⟨hs, rfl⟩, .inr ⟨.message, ?_⟩⟩
      simp [Worker.step, hpc, hi, hclosed, StreamPc.position]
  | terminated hw | timeUp hw | closed hw =>
    obtain ⟨v', hv', hstep⟩ := Stands.leave rate hs (by rw [hpc, hw]; rfl) channelOpen _ _
    exact ⟨v', hv', .inr hstep⟩
  | ticked hw | moved hw => exact ⟨v, ⟨hs, by rw [hpc, hw]; rfl⟩, .inl rfl⟩
  | drains => exact ⟨v, ⟨hs, hpc⟩, .inl rfl⟩
  | @drained stats hw =>
    rw [hw] at hpc
    refine ⟨{ v with pc := .done (.ok stats) }, ⟨hs, rfl⟩, .inr ⟨.drained, ?_⟩⟩
    simp [Worker.step, hpc, StreamPc.position]
  | unfilled hw hsend =>
    rw [hw] at hpc
    refine ⟨{ v with pc := .done .err }, ⟨hs, rfl⟩, .inr ⟨.fail, ?_⟩⟩
    simp [Worker.step, hpc, hs, hsend, StreamPc.position]
  | failed hw =>
    refine ⟨{ v with pc := .done .err }, ⟨hs, rfl⟩, .inr ⟨.fail, ?_⟩⟩
    rcases hw with ⟨l, hw⟩ | ⟨stats, hw⟩ <;> simp [Worker.step, hpc, hw, StreamPc.position]
  | panicked hw =>
    refine ⟨{ v with pc := .done .panicked }, ⟨hs, rfl⟩, .inr ⟨.panic, ?_⟩⟩
    cases hpc' : w.pc with
    | done r => exact absurd hpc' (hw r)
    | _ => simp [Worker.step, hpc, hpc', StreamPc.position]

end StreamWorker

end Netperf
