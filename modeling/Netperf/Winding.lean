import Netperf.DataStream
import Netperf.Lib.Efforts
/-!
# The end of a data stream

The deadline of a sender comes first in its `biased` select, so from then on it
writes nothing. What is left of the stream is what is on the way: the receiver
reads it and sees the end.
-/

namespace Netperf

open Runs Pipes

/-! ## What is left of a worker -/

/-- The stages of `run_worker` from the select loop on. -/
def StreamPc.left : StreamPc → Nat
  | .spawned | .waiting => 3
  | .loading _ => 2
  | .draining _ => 1
  | .done _ => 0

/-- A step of the worker that is not a tick or a repeated `StartLoad`. -/
def StreamEvent.moves : StreamEvent → Bool
  | .tick _ | .startLoad _ _ => false
  | _ => true

/-- The bytes of a read, in the loop or after it, or of a write. -/
def StreamEvent.carried : StreamEvent → Nat
  | .io n _ | .drain n => n
  | _ => 0

namespace StreamWorker
variable {rate : Nat → Nat → Nat} {w u : StreamWorker} {e : StreamEvent}

/-- The worker has had its `StartLoad`; only a receiver drains. -/
def Started (w : StreamWorker) : Prop :=
  match w.pc with
  | .spawned | .waiting => False
  | .draining _ => w.isSending = false
  | _ => True

theorem leave_left (l : Load) (now : Nat) : (w.leave rate l now).pc.left ≤ 1 := by
  unfold leave
  cases w.isSending <;> simp [StreamPc.left]

theorem leave_started (l : Load) (now : Nat) : (w.leave rate l now).Started := by
  cases hs : w.isSending <;> simp [Started, leave, hs]

theorem started_step (h : Step rate w e u) (hw : w.Started) : u.Started := by
  cases h with
  | terminated | timeUp | closed => exact leave_started _ _
  | again | drains => exact hw
  | filled hpc | allocated hpc | load hpc | unstarted hpc | unfilled hpc => simp [Started, hpc] at hw
  | ticked | moved | drained | failed | panicked => trivial

/-- Past the start a step goes on in the program, or reads or writes. -/
theorem left_step (h : Step rate w e u) (hw : w.Started) :
    u.pc.left + (if e.moves then 1 else 0) ≤ w.pc.left + e.carried := by
  cases h with
  | filled hpc | allocated hpc | load hpc | unstarted hpc | unfilled hpc => simp [Started, hpc] at hw
  | terminated hpc | timeUp hpc | closed hpc =>
    rw [hpc]
    exact Nat.succ_le_succ (leave_left _ _)
  | again hpc | ticked hpc => simp [hpc, StreamPc.left, StreamEvent.moves]
  | moved hpc _ hn =>
    simp only [hpc, StreamPc.left, StreamEvent.moves, StreamEvent.carried, if_true]
    omega
  | drains hpc _ hn =>
    simp only [StreamEvent.moves, StreamEvent.carried, if_true]
    omega
  | drained hpc => simp [hpc, StreamPc.left, StreamEvent.moves]
  | failed hpc => rcases hpc with ⟨l, hpc⟩ | ⟨stats, hpc⟩ <;>
    simp [hpc, StreamPc.left, StreamEvent.moves, StreamEvent.carried]
  | panicked hpc =>
    cases hp : w.pc with
    | done r => exact absurd hp (hpc r)
    | _ => simp [StreamPc.left, StreamEvent.moves, StreamEvent.carried]

/-- A sender never drains. -/
theorem Started.sending (hw : w.Started) (hs : w.isSending = true) (hd : w.isDone = false) : ∃ l, w.pc = .loading l := by
  cases hpc : w.pc with
  | loading l => exact ⟨l, rfl⟩
  | draining => simp [Started, hpc, hs] at hw
  | done => simp [isDone, hpc] at hd
  | spawned | waiting => simp [Started, hpc] at hw

/-- So without a write it carries nothing. -/
theorem carried_eq (h : Step rate w e u) (hw : w.Started) (hs : w.isSending = true) (he : e.moved = 0) :
    e.carried = 0 := by
  cases h with
  | drains hpc | drained hpc =>
    obtain ⟨l, hl⟩ := hw.sending hs (by simp [isDone, hpc])
    rw [hpc] at hl
    cases hl
  | moved => exact he
  | _ => rfl

end StreamWorker

/-! ## What is left of a stream -/

def DataEvent.moves : DataEvent → Bool
  | .sender e | .receiver e => e.moves

namespace DataStream
variable {rate : Nat → Nat → Nat} {s u : DataStream} {e : DataEvent} {params : TestParameters} {es fs : List DataEvent}

/-- The sender's time is up: no write is completed any more. -/
def Winding (_ : DataStream) : DataEvent → Prop
  | .sender (.io _ _) => False
  | _ => True

def bothDone (s : DataStream) : Bool := s.sender.isDone && s.receiver.isDone

/-- What the two ends still do, and what is on the way. -/
def left (s : DataStream) : Nat := s.sender.pc.left + s.receiver.pc.left + s.pipe.rest.length

/-- Both ends have started. -/
structure Under (s : DataStream) : Prop where
  conserved : Conserved s
  sender : s.sender.Started
  receiver : s.receiver.Started

/-- A step of the receiver takes off the pipe what it reads. -/
theorem receiver_cases {e : StreamEvent} (h : s.step rate (.receiver e) = some u) :
    StreamWorker.Step rate s.receiver e u.receiver ∧ u.sender = s.sender ∧
      u.pipe.rest.length + e.carried = s.pipe.rest.length := by
  have hread : ∀ n, s.yields n = true → (s.pipe.read n).rest.length + n = s.pipe.rest.length := by
    intro n hn
    have hle := take_length hn
    rw [List.length_take] at hle
    rw [Pipe.rest_read, List.length_drop]
    omega
  cases e with
  | io n now =>
    simp only [step, Option.ite_none_right_eq_some, Option.map_eq_some_iff] at h
    obtain ⟨hn, w, hw, rfl⟩ := h
    exact ⟨StreamWorker.step_cases hw, rfl, hread n hn⟩
  | drain n =>
    simp only [step, Option.ite_none_right_eq_some, Option.map_eq_some_iff] at h
    obtain ⟨hn, w, hw, rfl⟩ := h
    exact ⟨StreamWorker.step_cases hw, rfl, hread n hn⟩
  | _ =>
    obtain ⟨w, hw, rfl⟩ := Option.map_eq_some_iff.1 h
    exact ⟨StreamWorker.step_cases hw, rfl, rfl⟩

/-- A sender that writes nothing leaves the pipe as it is, but for its end. -/
theorem sender_cases {e : StreamEvent} (h : s.step rate (.sender e) = some u) (he : e.moved = 0) :
    StreamWorker.Step rate s.sender e u.sender ∧ u.receiver = s.receiver ∧ u.pipe.rest = s.pipe.rest := by
  obtain ⟨w, hw, rfl⟩ := Option.map_eq_some_iff.1 h
  refine ⟨StreamWorker.step_cases hw, rfl, ?_⟩
  rw [Pipe.rest_close, Pipe.rest_write, he, List.take_zero, List.append_nil]

theorem Under.step (hi : Under s) (hc : Winding s e) (h : s.step rate e = some u) :
    Under u ∧ u.left + (if e.moves then 1 else 0) ≤ s.left := by
  have hconserved := conserved_step h hi.conserved
  cases e with
  | sender e =>
    have hquiet : e.moved = 0 := by
      cases e with
      | io => exact hc.elim
      | _ => rfl
    obtain ⟨hw, hreceiver, hrest⟩ := sender_cases h hquiet
    have hleft := StreamWorker.left_step hw hi.sender
    rw [StreamWorker.carried_eq hw hi.sender hi.conserved.roles.1 hquiet] at hleft
    refine ⟨⟨hconserved, StreamWorker.started_step hw hi.sender, hreceiver ▸ hi.receiver⟩, ?_⟩
    unfold left
    rw [hreceiver, hrest]
    change _ + (if e.moves then 1 else 0) ≤ _
    omega
  | receiver e =>
    obtain ⟨hw, hsender, hrest⟩ := receiver_cases h
    have hleft := StreamWorker.left_step hw hi.receiver
    refine ⟨⟨hconserved, hsender ▸ hi.sender, StreamWorker.started_step hw hi.receiver⟩, ?_⟩
    unfold left
    rw [hsender]
    change _ + (if e.moves then 1 else 0) ≤ _
    omega

/-- When the sender has closed, a read is over at once: with bytes that are still
on the way, or with none. -/
theorem Under.readable (hi : Under s) (hs : s.sender.isDone = true) :
    ∃ n, n ≤ s.receiver.buffer.length ∧ s.yields n = true := by
  have hclosed := hi.conserved.closed.trans hs
  by_cases hb : s.receiver.buffer.length = 0
  · exact ⟨0, Nat.zero_le _, by simp [yields, hb]⟩
  · cases hrest : s.pipe.rest with
    | nil => exact ⟨0, Nat.zero_le _, by simp [yields, Pipe.yields, hclosed, hrest]⟩
    | cons a as => exact ⟨1, Nat.pos_of_ne_zero hb, by simp [yields, Pipe.yields, hrest]⟩

/-- What is due at `now`: the deadline of a sender that is not over, and after
that the read of the receiver, in its loop or in its drain. -/
def Due (s : DataStream) (now : Nat) : DataEvent → Prop
  | .sender (.deadline t) => t = now ∧ s.sender.isDone = false
  | .receiver (.io _ t) => t = now ∧ s.sender.isDone = true
  | .receiver (.drain _) => s.sender.isDone = true
  | _ => False

/-- As long as an end is not over, what is due can be done. -/
theorem Under.goes (hi : Under s) (hd : s.bothDone = false) (now : Nat) :
    ∃ e, Winding s e ∧ e.moves = true ∧ s.Due now e ∧ (s.step rate e).isSome = true := by
  by_cases hs : s.sender.isDone = true
  · have hr : s.receiver.isDone = false := by simpa [bothDone, hs] using hd
    obtain ⟨n, hn, hy⟩ := hi.readable hs
    cases hpc : s.receiver.pc with
    | loading l =>
      refine ⟨.receiver (.io n now), trivial, rfl, ⟨rfl, hs⟩, ?_⟩
      simp [DataStream.step, StreamWorker.step, hpc, hn, hy]
    | draining stats =>
      refine ⟨.receiver (.drain n), trivial, rfl, hs, ?_⟩
      simp [DataStream.step, StreamWorker.step, hpc, hn, hy]
    | done => simp [StreamWorker.isDone, hpc] at hr
    | spawned | waiting =>
      have hstarted := hi.receiver
      simp [StreamWorker.Started, hpc] at hstarted
  · have hs : s.sender.isDone = false := by simpa using hs
    obtain ⟨l, hpc⟩ := hi.sender.sending hi.conserved.roles.1 hs
    exact ⟨.sender (.deadline now), trivial, rfl, ⟨rfl, hs⟩, by simp [DataStream.step, StreamWorker.step, hpc]⟩

/-- After the sender's deadline a started stream comes to its end by itself: the
bytes on the way bound what both ends still do, and until both are over the
sender can end, or else the receiver's read can. -/
theorem winds_down (h : Run (step rate) Any (new params) es s) (hs : s.sender.Started) (hr : s.receiver.Started)
    (hw : Run (step rate) Winding s fs u) :
    fs.countP DataEvent.moves ≤ s.pipe.rest.length + 4 ∧
      (u.bothDone = false →
        ∀ now, ∃ e, Winding u e ∧ e.moves = true ∧ u.Due now e ∧ (u.step rate e).isSome = true) := by
  have h0 : Under s := ⟨h.inv Conserved (.new params) (fun t e u hi _ hs => conserved_step hs hi), hs, hr⟩
  obtain ⟨hi, hcost⟩ := hw.countP_add_le DataEvent.moves Under left h0 (fun _ _ _ hi hc hs => hi.step hc hs)
  have hleft : ∀ {w : StreamWorker}, w.Started → w.pc.left ≤ 2 := by
    intro w hw
    cases hpc : w.pc <;> simp_all [StreamPc.left, StreamWorker.Started]
  have hsender := hleft hs
  have hreceiver := hleft hr
  refine ⟨?_, hi.goes⟩
  unfold left at hcost
  omega

instance (w : StreamWorker) : Decidable w.Started := by
  unfold StreamWorker.Started
  split <;> infer_instance

instance (s : DataStream) (e : DataEvent) : Decidable (Winding s e) := by
  unfold Winding
  split <;> infer_instance

/-- The sender's time is up with three bytes on the way. -/
theorem winds_down_three : ∃ s u, Run (step (fun _ _ => 0)) Any (new { uploadParams 1 with blockSize := 4 })
      (([.start [1, 2, 3, 4], .startLoad 0 0, .io 3 10] : List StreamEvent).map .sender ++
        ([.start [], .startLoad 5 0] : List StreamEvent).map .receiver) s ∧
    (s.sender.Started ∧ s.receiver.Started ∧ s.pipe.rest.length = 3) ∧
    Run (step (fun _ _ => 0)) Winding s
      [.sender (.deadline 30), .receiver (.io 2 31), .receiver (.deadline 35), .receiver (.drain 1), .receiver (.drain 0)] u ∧
    u.bothDone = true ∧ 5 ≤ s.pipe.rest.length + 4 := by
  obtain ⟨s, hrun, hs⟩ := exists_run_of_exec (step (fun _ _ => 0)) Any (new { uploadParams 1 with blockSize := 4 })
    (([.start [1, 2, 3, 4], .startLoad 0 0, .io 3 10] : List StreamEvent).map .sender ++
      ([.start [], .startLoad 5 0] : List StreamEvent).map .receiver)
    (fun s => (s.sender.Started ∧ s.receiver.Started ∧ s.pipe.rest.length = 3) ∧
      (exec (guarded (step (fun _ _ => 0)) Winding) s [.sender (.deadline 30), .receiver (.io 2 31),
        .receiver (.deadline 35), .receiver (.drain 1), .receiver (.drain 0)]).any bothDone) (by decide +kernel)
  simp only [decide_eq_true_eq] at hs
  obtain ⟨hstarted, hdown⟩ := hs
  obtain ⟨u, hu, hdone⟩ := exists_run_of_exec (step (fun _ _ => 0)) Winding s [.sender (.deadline 30),
    .receiver (.io 2 31), .receiver (.deadline 35), .receiver (.drain 1), .receiver (.drain 0)] bothDone hdown
  exact ⟨s, u, hrun, hstarted, hu, hdone, (winds_down hrun hstarted.1 hstarted.2.1 hu).1⟩

end DataStream

end Netperf
