import Mathlib.Algebra.Group.Nat.Defs
import Netperf.Lib.Runs
import Netperf.StreamWorker
/-!
# Where a worker can panic

The allocations, the additions to an `Instant` and the narrowing conversions of
`run_worker`, on the build target. Nothing checks the parameters that come from
the wire before they get there.
-/

namespace Netperf

open Runs

/-! ## What panics in the standard library -/

/-- `usize::saturating_mul` -/
def saturatingMul (a b : Nat) : Nat := min (a * b) (usizeSize - 1)

/-- A `Vec` of that capacity can be requested, for elements of that size. -/
def allocatable (elemSize cap : Nat) : Bool := elemSize * cap ≤ isizeMax

/-- The capacity that `push` requests of a full `Vec<u64>`. -/
def grown (cap : Nat) : Nat := max (max (2 * cap) (cap + 1)) 4

/-- The capacity of a `Vec<u64>` after `n` pushes, from the one it was created with. -/
def capacityAfter (cap : Nat) : Nat → Nat
  | 0 => cap
  | n + 1 => if n < capacityAfter cap n then capacityAfter cap n else grown (capacityAfter cap n)

/-- `push` on a `Vec<u64>` that holds `n` values. -/
def pushPanics (cap n : Nat) : Bool :=
  !(n < capacityAfter cap n) && !allocatable 8 (grown (capacityAfter cap n))

/-- `Instant + Duration`, for whole seconds. -/
def instantOverflows (instant secs : Nat) : Bool := u64Size ≤ instant / nsPerSec + secs

/-- `as_millis().try_into().unwrap()`, to a `u64`. -/
def millisOverflow (ns : Nat) : Bool := u64Size ≤ ns / nsPerMilli

/-- There is a free place, or so few values that twice as many can be allocated. -/
def HasRoom (cap n : Nat) : Prop := n < capacityAfter cap n ∨ n < 2 ^ 27

theorem le_capacityAfter (cap n : Nat) : n ≤ capacityAfter cap n := by
  induction n with
  | zero => exact Nat.zero_le _
  | succ n ih =>
    unfold capacityAfter grown
    split <;> omega

theorem allocatable_iff (elemSize cap : Nat) : allocatable elemSize cap = true ↔ elemSize * cap < 2 ^ 31 := by
  unfold allocatable isizeMax
  rw [decide_eq_true_iff]
  omega

theorem pushPanics_iff (cap n : Nat) : pushPanics cap n = true ↔ ¬HasRoom cap n := by
  have hle := le_capacityAfter cap n
  unfold pushPanics HasRoom
  rw [Bool.and_eq_true, Bool.not_eq_true', decide_eq_false_iff_not, Bool.not_eq_true', ← Bool.not_eq_true, allocatable_iff]
  unfold grown
  omega

theorem not_millisOverflow {ns : Nat} (h : ns < u64Size) : millisOverflow ns = false := by
  unfold millisOverflow
  have hle := Nat.div_le_self ns nsPerMilli
  simp only [decide_eq_false_iff_not]
  omega

/-! ## What panics in the worker -/

namespace TestParameters

/-- `time_seconds as usize` -/
def secs (params : TestParameters) : Nat := params.timeSeconds.toNat % usizeSize

def samplesCapacity (params : TestParameters) : Nat :=
  if params.measureLatency then saturatingMul params.secs 50000 else 0

def tputCapacity (params : TestParameters) : Nat := if params.measureLatency then saturatingMul params.secs 120 else 0

end TestParameters

namespace StreamWorker

/-- The code that the event runs panics. -/
def panics (w : StreamWorker) : StreamEvent → Bool
  | .start _ => !allocatable 1 w.params.blockSize
  | .startLoad now _ =>
    match w.pc with
    | .waiting =>
      !allocatable 8 w.params.samplesCapacity || !allocatable 8 w.params.tputCapacity ||
        instantOverflows now w.params.timeSeconds.toNat || instantOverflows now 1
    | _ => false
  | .tick tick =>
    match w.pc with
    | .loading l => millisOverflow (l.lastTick - l.startTime) || millisOverflow (tick - l.lastTick)
    | _ => false
  | .terminate now | .deadline now =>
    match w.pc with
    | .loading l => millisOverflow (now - l.startTime)
    | _ => false
  | .io bytesCount now =>
    match w.pc with
    | .loading l =>
      if bytesCount > 0 then
        w.params.measureLatency &&
          ((Load.win ≤ now - l.winStart && pushPanics w.params.tputCapacity l.tput.length) ||
            (Load.warmup w.params ≤ now - l.startTime && pushPanics w.params.samplesCapacity l.samples.length))
      else millisOverflow (now - l.startTime)
    | _ => false
  | _ => false

/-- One step of `run_worker` with its panics where the code has them. -/
def stepOrPanic (rate : Nat → Nat → Nat) (w : StreamWorker) : StreamEvent → Option StreamWorker
  | .panic => none
  | e => (w.step rate e).map (fun u => if w.panics e then { w with pc := .done .panicked } else u)

end StreamWorker

instance (cap n : Nat) : Decidable (HasRoom cap n) := by
  unfold HasRoom
  infer_instance

/-- The deadline is an `Instant`, and the samples of the test can be allocated. -/
def TestParameters.RoomToLoad (params : TestParameters) (now : Nat) : Prop :=
  now / nsPerSec + params.timeSeconds.toNat < 2 ^ 64 ∧ (params.measureLatency = true → params.secs ≤ 5368)

instance (params : TestParameters) (now : Nat) : Decidable (params.RoomToLoad now) := by
  unfold TestParameters.RoomToLoad
  infer_instance

/-- What a completion adds to the vectors still fits them. -/
def Load.RoomToRecord (l : Load) (params : TestParameters) (bytesCount now : Nat) : Prop :=
  params.measureLatency = true → 0 < bytesCount →
    (win ≤ now - l.winStart → HasRoom params.tputCapacity l.tput.length) ∧
      (warmup params ≤ now - l.startTime → HasRoom params.samplesCapacity l.samples.length)

instance (l : Load) (params : TestParameters) (bytesCount now : Nat) : Decidable (l.RoomToRecord params bytesCount now) := by
  unfold Load.RoomToRecord
  infer_instance

/-- What the event asks for is there. -/
def StreamWorker.Room (w : StreamWorker) : StreamEvent → Prop
  | .start _ => w.params.blockSize < 2 ^ 31
  | .startLoad now _ =>
    match w.pc with
    | .waiting => w.params.RoomToLoad now
    | _ => True
  | .io bytesCount now =>
    match w.pc with
    | .loading l => l.RoomToRecord w.params bytesCount now
    | _ => True
  | _ => True

/-- The monotonic clock counts nanoseconds in a `u64`. -/
def StreamEvent.Clocked : StreamEvent → Prop
  | .startLoad now _ | .terminate now | .deadline now | .tick now | .io _ now => now < 2 ^ 64
  | _ => True

instance (w : StreamWorker) (e : StreamEvent) : Decidable (w.Room e) :=
  match e with
  | .start _ => inferInstanceAs (Decidable (w.params.blockSize < 2 ^ 31))
  | .startLoad now _ => by
    unfold StreamWorker.Room
    exact match w.pc with
    | .waiting => inferInstanceAs (Decidable (w.params.RoomToLoad now))
    | .spawned | .loading _ | .draining _ | .done _ => .isTrue trivial
  | .io bytesCount now => by
    unfold StreamWorker.Room
    exact match w.pc with
    | .loading l => inferInstanceAs (Decidable (l.RoomToRecord w.params bytesCount now))
    | .spawned | .waiting | .draining _ | .done _ => .isTrue trivial
  | .terminate _ | .deadline _ | .tick _ | .drain _ | .fail | .panic => .isTrue trivial

instance (e : StreamEvent) : Decidable e.Clocked :=
  match e with
  | .startLoad now _ | .terminate now | .deadline now | .tick now | .io _ now => inferInstanceAs (Decidable (now < 2 ^ 64))
  | .start _ | .drain _ | .fail | .panic => .isTrue trivial

namespace StreamWorker

variable {rate : Nat → Nat → Nat} {params : TestParameters} {isSending : Bool} {w u : StreamWorker} {e : StreamEvent}

theorem allocatable_samples (params : TestParameters) :
    allocatable 8 params.samplesCapacity = true ↔ (params.measureLatency = true → params.secs ≤ 5368) := by
  rw [allocatable_iff]
  unfold TestParameters.samplesCapacity saturatingMul usizeSize
  split
  · simp_all
    omega
  · simp_all

theorem allocatable_tput (h : allocatable 8 params.samplesCapacity = true) : allocatable 8 params.tputCapacity = true := by
  rw [allocatable_iff] at *
  unfold TestParameters.samplesCapacity saturatingMul usizeSize at h
  unfold TestParameters.tputCapacity saturatingMul usizeSize
  split
  · simp_all
    omega
  · simp_all

theorem instantOverflows_iff (instant secs : Nat) :
    instantOverflows instant secs = true ↔ ¬instant / nsPerSec + secs < 2 ^ 64 := by
  unfold instantOverflows u64Size
  rw [decide_eq_true_iff, Nat.not_lt]

theorem not_instantOverflows {now : Nat} (h : now < 2 ^ 64) : instantOverflows now 1 = false := by
  rw [← Bool.not_eq_true, instantOverflows_iff, not_not]
  unfold nsPerSec
  omega

theorem panics_startLoad {now base : Nat} (hc : now < 2 ^ 64) :
    w.panics (.startLoad now base) = true ↔ ¬w.Room (.startLoad now base) := by
  by_cases hpc : w.pc = .waiting
  · simp only [panics, Room, TestParameters.RoomToLoad, hpc, not_instantOverflows hc, Bool.or_false, Bool.or_eq_true,
      Bool.not_eq_true', ← allocatable_samples, instantOverflows_iff]
    cases hs : allocatable 8 w.params.samplesCapacity with
    | true =>
      rw [allocatable_tput hs]
      simp
    | false => simp
  · cases h : w.pc <;> simp_all [panics, Room]

theorem panics_io {n now : Nat} (hc : now < 2 ^ 64) : w.panics (.io n now) = true ↔ ¬w.Room (.io n now) := by
  cases hpc : w.pc with
  | loading l =>
    by_cases hn : 0 < n
    · simp only [panics, Room, Load.RoomToRecord, hpc, hn, if_true, Bool.and_eq_true, Bool.or_eq_true,
        decide_eq_true_eq, pushPanics_iff, forall_const]
      tauto
    · simp [panics, Room, Load.RoomToRecord, hpc, hn, not_millisOverflow (Nat.lt_of_le_of_lt (Nat.sub_le now l.startTime) hc)]
  | _ => simp [panics, Room, hpc]

/-- On a clock that fits 64 bits the code panics exactly for want of room. -/
theorem panics_iff (hl : ∀ l, w.pc = .loading l → l.lastTick < u64Size) (hc : e.Clocked) :
    w.panics e = true ↔ ¬w.Room e := by
  cases e with
  | start random =>
    unfold panics Room
    rw [Bool.not_eq_true', ← Bool.not_eq_true, allocatable_iff, Nat.one_mul]
  | startLoad now base => exact panics_startLoad hc
  | io n now => exact panics_io hc
  | tick tick =>
    have htick : tick < u64Size := hc
    cases hpc : w.pc with
    | loading l =>
      simp [panics, Room, hpc, not_millisOverflow (Nat.lt_of_le_of_lt (Nat.sub_le _ l.startTime) (hl l hpc)),
        not_millisOverflow (Nat.lt_of_le_of_lt (Nat.sub_le _ l.lastTick) htick)]
    | _ => simp [panics, Room, hpc]
  | terminate now | deadline now =>
    have hnow : now < u64Size := hc
    cases hpc : w.pc with
    | loading l => simp [panics, Room, hpc, not_millisOverflow (Nat.lt_of_le_of_lt (Nat.sub_le _ l.startTime) hnow)]
    | _ => simp [panics, Room, hpc]
  | _ => simp [panics, Room]

/-! ## Runs of a worker -/

theorem step_of_stepOrPanic (h : w.stepOrPanic rate e = some u) :
    ∃ v, Step rate w e v ∧ e ≠ .panic ∧ u = if w.panics e then { w with pc := .done .panicked } else v := by
  cases e <;> simp only [stepOrPanic, Option.map_eq_some_iff, reduceCtorEq] at h <;> obtain ⟨v, hv, rfl⟩ := h <;>
    exact ⟨v, step_cases hv, by simp, rfl⟩

theorem not_done_of_step (h : Step rate w e u) (r : TaskResult) : w.pc ≠ .done r := by
  cases h <;> simp_all
  · rename_i hpc
    rcases hpc with ⟨l, hpc⟩ | ⟨stats, hpc⟩ <;> simp [hpc]

/-- A step with panics is a step of the worker, the panic one of its events. -/
theorem stepOrPanic_refines (h : w.stepOrPanic rate e = some u) : ∃ e', Step rate w e' u := by
  obtain ⟨v, hv, -, rfl⟩ := step_of_stepOrPanic h
  split
  · exact ⟨.panic, .panicked (not_done_of_step hv)⟩
  · exact ⟨e, hv⟩

/-- A worker that has not panicked, and whose last tick is on the clock. -/
structure Sound (w : StreamWorker) : Prop where
  alive : w.pc ≠ .done .panicked
  ticked : ∀ l, w.pc = .loading l → l.lastTick < u64Size

theorem leave_pc (rate : Nat → Nat → Nat) (w : StreamWorker) (l : Load) (now : Nat) :
    (∃ stats, (w.leave rate l now).pc = .done (.ok stats)) ∨ ∃ stats, (w.leave rate l now).pc = .draining stats := by
  unfold leave
  cases w.isSending with
  | true => exact .inl ⟨_, rfl⟩
  | false => exact .inr ⟨_, rfl⟩

theorem Sound.leave (w : StreamWorker) (l : Load) (now : Nat) : (w.leave rate l now).Sound := by
  rcases leave_pc rate w l now with ⟨stats, h⟩ | ⟨stats, h⟩ <;> constructor <;> simp [h]

theorem Sound.step (hs : w.Sound) (h : Step rate w e u) (hc : e.Clocked) (hp : e ≠ .panic) : u.Sound := by
  cases h with
  | filled | allocated | unstarted | drained | unfilled | failed => constructor <;> simp
  | load => exact ⟨by simp, by rintro l ⟨⟩; exact hc⟩
  | again | drains => exact hs
  | terminated | timeUp | closed => exact Sound.leave _ _ _
  | ticked => exact ⟨by simp, by rintro l ⟨⟩; exact hc⟩
  | moved hpc => exact ⟨by simp, by rintro l ⟨⟩; rw [Load.io_lastTick]; exact hs.ticked _ hpc⟩
  | panicked => exact absurd rfl hp

/-- A step that has room keeps the worker alive, one that has not is its end. -/
theorem Sound.stepOrPanic (hs : w.Sound) (h : w.stepOrPanic rate e = some u) (hc : e.Clocked) :
    (w.Room e → u.Sound) ∧ (¬w.Room e → u.pc = .done .panicked) := by
  obtain ⟨v, hv, hp, rfl⟩ := step_of_stepOrPanic h
  have hpanics := panics_iff hs.ticked hc
  constructor
  · intro hr
    rw [if_neg (fun h => hpanics.1 h hr)]
    exact hs.step hv hc hp
  · intro hr
    rw [if_pos (hpanics.2 hr)]

theorem Sound.new (params : TestParameters) (isSending : Bool) : (new params isSending).Sound := by
  constructor <;> simp [StreamWorker.new]

theorem sound_run {es : List StreamEvent}
    (h : Run (stepOrPanic rate) (fun w e => w.Room e ∧ e.Clocked) (new params isSending) es w) : w.Sound := by
  apply h.inv Sound (Sound.new params isSending)
  intro w e u hs hc hstep
  exact (hs.stepOrPanic hstep hc.2).1 hc.1

/-- A task that is over and has not panicked tells its controller. -/
theorem Sound.reports (hs : w.Sound) {c : TestController} {channelOpen : Bool} {i : Nat} {v v' : Worker} {ev : WorkerEvent}
    (hv : c.workers[i]? = some v) (hstep : v.step channelOpen ev = some v') (hst : w.Stands v') (hd : v'.isDone = true) :
    c.workerStep true channelOpen i ev =
      some ((({ c with workers := c.workers.set i v' }).trySend (.streamTerminated v.id)).getD
        { c with workers := c.workers.set i v' }) := by
  have hr : v'.returned = true := by
    rcases Worker.done_cases hd with hr | hp
    · exact hr
    · rw [hst.2] at hp
      cases hpc : w.pc <;> simp_all [StreamPc.position]
      exact absurd hpc hs.alive
  unfold TestController.workerStep
  simp [hv, hstep, hr]

/-- While every step has room no worker panics, a worker that is over has
returned and sends its notice, and the first step without room is a panic. -/
theorem run_panics_iff {es : List StreamEvent}
    (h : Run (stepOrPanic rate) (fun w e => w.Room e ∧ e.Clocked) (new params isSending) es w) :
    w.pc ≠ .done .panicked ∧ (∀ r, w.pc = .done r → r = .err ∨ ∃ stats, r = .ok stats) ∧
      (∀ e u, w.stepOrPanic rate e = some u → e.Clocked → (u.pc = .done .panicked ↔ ¬w.Room e)) ∧
      ∀ (c : TestController) (channelOpen : Bool) (i : Nat) (v v' : Worker) (ev : WorkerEvent),
        c.workers[i]? = some v → v.step channelOpen ev = some v' → w.Stands v' → v'.isDone = true →
        c.workerStep true channelOpen i ev =
          some ((({ c with workers := c.workers.set i v' }).trySend (.streamTerminated v.id)).getD
            { c with workers := c.workers.set i v' }) := by
  have hs := sound_run h
  refine ⟨hs.alive, ?_, ?_, ?_⟩
  · intro r hr
    cases r with
    | ok stats => exact .inr ⟨stats, rfl⟩
    | err => exact .inl rfl
    | panicked => exact absurd hr hs.alive
  · intro e u hu hc
    obtain ⟨hroom, hnone⟩ := hs.stepOrPanic hu hc
    exact ⟨fun hp hr => (hroom hr).alive hp, hnone⟩
  · intro c channelOpen i v v' ev hv hstep hst hd
    exact hs.reports hv hstep hst hd

/-- A receiver that ends at its deadline. -/
theorem run_panics_download :
    ∃ w, Run (stepOrPanic (fun _ _ => 0)) (fun w e => w.Room e ∧ e.Clocked)
        (new { uploadParams 1 with blockSize := 1 } false) [.start [], .startLoad 0 0, .deadline 0, .drain 0] w ∧
      w.pc ≠ .done .panicked := by
  obtain ⟨w, h, -⟩ := exists_run_of_exec (stepOrPanic (fun _ _ => 0)) (fun w e => w.Room e ∧ e.Clocked)
    (new { uploadParams 1 with blockSize := 1 } false) [.start [], .startLoad 0 0, .deadline 0, .drain 0]
    (fun _ => true) (by decide +kernel)
  exact ⟨w, h, (run_panics_iff h).1⟩

/-- 5369 seconds with latency samples: the vector for them is beyond the limit. -/
theorem latency_run_panics :
    ∃ w, Run (stepOrPanic (fun _ _ => 0)) (fun _ e => e.Clocked)
        (new { uploadParams 1 with timeSeconds := 5369, measureLatency := true, blockSize := 1 } false)
        [.start [], .startLoad 0 0] w ∧
      w.pc = .done .panicked := by
  obtain ⟨w, h, hp⟩ := exists_run_of_exec (stepOrPanic (fun _ _ => 0)) (fun _ e => e.Clocked)
    (new { uploadParams 1 with timeSeconds := 5369, measureLatency := true, blockSize := 1 } false)
    [.start [], .startLoad 0 0] (fun w => w.pc = .done .panicked) (by decide +kernel)
  exact ⟨w, h, by simpa using hp⟩

end StreamWorker

end Netperf
