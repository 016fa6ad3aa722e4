import Netperf.StreamWorker
import Netperf.Lib.Pipes
import Netperf.Lib.Runs
/-!
# The bytes of a data stream

The two workers of one stream, one sending and one receiving, with the
connection between them. Each leaves its loop when its own deadline, its own
controller or the connection makes it; the receiver stops counting first and
goes on reading until the sender has closed.
-/

namespace Netperf

open Runs Pipes

/-! ## Counting -/

/-- What the event adds to the count. -/
def StreamEvent.moved : StreamEvent → Nat
  | .io n _ => n
  | _ => 0

namespace StreamWorker
variable {rate : Nat → Nat → Nat} {w u : StreamWorker} {e : StreamEvent}

def isDone (w : StreamWorker) : Bool :=
  match w.pc with
  | .done _ => true
  | _ => false

/-- The worker's count so far, as long as it has not failed. -/
def bytes (w : StreamWorker) : Option Nat :=
  match w.pc with
  | .spawned | .waiting => some 0
  | .loading l => some l.bytesTransferred
  | .draining stats => some stats.bytesTransferred
  | .done (.ok stats) => some stats.bytesTransferred
  | .done _ => none

/-- What is read is still counted. -/
def counting (w : StreamWorker) : Bool :=
  match w.pc with
  | .draining _ | .done _ => false
  | _ => true

theorem ok_of_bytes (hd : w.isDone = true) {n : Nat} (hb : w.bytes = some n) :
    ∃ stats, w.pc = .done (.ok stats) ∧ stats.bytesTransferred = n := by
  unfold isDone at hd
  split at hd
  · rename_i r hpc
    cases r with
    | ok stats => exact ⟨stats, hpc, by simpa [bytes, hpc] using hb⟩
    | err | panicked => simp [bytes, hpc] at hb
  · cases hd

theorem leave_bytes (l : Load) (now : Nat) : (w.leave rate l now).bytes = some l.bytesTransferred := by
  cases hs : w.isSending <;> simp [bytes, leave, stats, hs]

/-- A worker keeps its role and the size of its block. -/
theorem config_step (h : Step rate w e u) : u.isSending = w.isSending ∧ u.buffer.length = w.buffer.length := by
  cases h with
  | filled _ _ hlen => exact ⟨rfl, hlen⟩
  | _ => exact ⟨rfl, rfl⟩

/-- The count grows by what is written or read in the loop. -/
theorem bytes_step (h : Step rate w e u) {m : Nat} (hm : u.bytes = some m) :
    ∃ k, w.bytes = some k ∧ m = k + e.moved := by
  cases h with
  | filled hpc | allocated hpc | load hpc =>
    refine ⟨0, by simp [bytes, hpc], ?_⟩
    simp only [bytes, Option.some.injEq] at hm
    exact hm.symm
  | again | drains => exact ⟨m, hm, rfl⟩
  | terminated hpc | timeUp hpc | closed hpc =>
    rw [leave_bytes] at hm
    refine ⟨m, ?_, rfl⟩
    simpa [bytes, hpc] using hm
  | ticked hpc | drained hpc =>
    refine ⟨m, ?_, rfl⟩
    simpa [bytes, hpc] using hm
  | @moved l n now hpc =>
    refine ⟨l.bytesTransferred, by simp [bytes, hpc], ?_⟩
    simp only [bytes, Load.io_bytesTransferred, Option.some.injEq] at hm
    exact hm.symm
  | _ => simp [bytes] at hm

/-- After the loop nothing is counted any more. -/
theorem counting_step (h : Step rate w e u) (hw : w.counting = false) : u.counting = false ∧ e.moved = 0 := by
  cases h with
  | drains => exact ⟨hw, rfl⟩
  | drained | unstarted | unfilled | failed | panicked => exact ⟨rfl, rfl⟩
  | _ => simp_all [counting]

theorem moved_le (h : Step rate w e u) : e.moved ≤ w.buffer.length := by
  cases h with
  | moved _ hlen => exact hlen
  | _ => exact Nat.zero_le _

/-- A receiver returns its stats when the drain loop reads nothing. -/
theorem finish_step (h : Step rate w e u) (hs : w.isSending = false) {stats : StreamStats}
    (hu : u.pc = .done (.ok stats)) : e = .drain 0 := by
  cases h with
  | drained => rfl
  | terminated | timeUp | closed => simp [leave, hs] at hu
  | _ => simp_all

/-- A worker that is over does nothing. -/
theorem not_done_step (h : Step rate w e u) : w.isDone = false := by
  cases h with
  | failed hpc => rcases hpc with ⟨l, hpc⟩ | ⟨stats, hpc⟩ <;> simp [isDone, hpc]
  | panicked hpc =>
    unfold isDone
    split
    · rename_i r hr
      exact absurd hr (hpc r)
    · rfl
  | _ => simp_all [isDone]

end StreamWorker

/-! ## The two ends -/

/-- `counted` and `drained` are what the receiver has read in its select loop
and in the drain loop; `ended` says that a read of nothing ended the former. -/
structure DataStream where
  sender : StreamWorker
  receiver : StreamWorker
  pipe : Pipe UInt8
  counted : List UInt8
  drained : List UInt8
  ended : Bool

inductive DataEvent where
  | sender (e : StreamEvent)
  | receiver (e : StreamEvent)

namespace DataStream
variable (rate : Nat → Nat → Nat)

/-- Both ends have the parameters of the test. -/
def new (params : TestParameters) : DataStream :=
  { sender := .new params true, receiver := .new params false, pipe := .empty, counted := [], drained := [],
    ended := false }

/-- A read may yield `n` bytes: some of those on the way, in any pieces, none at
the end of the stream, and none for a buffer of no bytes. -/
def yields (s : DataStream) (n : Nat) : Bool := s.pipe.yields n ∨ (n = 0 ∧ s.receiver.buffer.length = 0)

def step (s : DataStream) : DataEvent → Option DataStream
  | .sender e =>
    -- `run_worker` owns the stream, so it is closed when the task is over
    (s.sender.step rate e).map (fun w =>
      { s with sender := w, pipe := (s.pipe.write (s.sender.buffer.take e.moved)).close w.isDone })
  | .receiver (.io n now) =>
    if s.yields n then
      (s.receiver.step rate (.io n now)).map (fun w =>
        { s with receiver := w, pipe := s.pipe.read n, counted := s.counted ++ s.pipe.rest.take n, ended := n = 0 })
    else none
  | .receiver (.drain n) =>
    if s.yields n then
      (s.receiver.step rate (.drain n)).map (fun w =>
        { s with receiver := w, pipe := s.pipe.read n, drained := s.drained ++ s.pipe.rest.take n })
    else none
  | .receiver e => (s.receiver.step rate e).map (fun w => { s with receiver := w })

/-- The end of the stream, for a reader with a buffer. -/
def Over (s : DataStream) : Prop := s.pipe.closed = true ∨ s.receiver.buffer.length = 0

/-- What was written, what was read, and what the two ends have counted. -/
structure Conserved (s : DataStream) : Prop where
  roles : s.sender.isSending = true ∧ s.receiver.isSending = false
  sizes : s.sender.buffer.length = s.receiver.buffer.length
  sent : ∀ n, s.sender.bytes = some n → s.pipe.written.length = n
  received : ∀ n, s.receiver.bytes = some n → s.counted.length = n
  taken : s.counted ++ s.drained = s.pipe.taken
  undrained : s.receiver.counting = true → s.drained = []
  closed : s.pipe.closed = s.sender.isDone
  nothing : s.receiver.buffer.length = 0 → s.pipe.written = []
  finished : ∀ stats, s.receiver.pc = .done (.ok stats) → s.Over ∧ s.pipe.taken = s.pipe.written
  ended : s.ended = true → s.Over ∧ s.counted = s.pipe.written

theorem Conserved.new (params : TestParameters) : Conserved (new params) := by
  refine ⟨⟨rfl, rfl⟩, rfl, ?_, ?_, rfl, fun _ => rfl, rfl, fun _ => rfl, ?_, ?_⟩ <;>
    simp [DataStream.new, StreamWorker.new, StreamWorker.bytes, Pipe.empty]

variable {rate} {s u : DataStream}

/-- A read takes the next bytes, or has no room for any. -/
theorem take_length {n : Nat} (hn : s.yields n = true) :
    (s.pipe.rest.take n).length = n := by
  simp only [yields, Bool.decide_or, Bool.decide_eq_true, Bool.or_eq_true, decide_eq_true_eq] at hn
  rcases hn with hn | ⟨rfl, -⟩
  · exact Pipe.yields_le hn
  · simp

/-- A read of nothing means that everything was read. -/
theorem Conserved.at_end (h : Conserved s) (hn : s.yields 0 = true) : s.Over ∧ s.pipe.taken = s.pipe.written := by
  simp only [yields, Bool.decide_or, Bool.decide_eq_true, Bool.or_eq_true, decide_eq_true_eq, true_and] at hn
  rcases hn with hn | hn
  · obtain ⟨hc, ht⟩ := Pipe.yields_end hn
    exact ⟨.inl hc, ht⟩
  · have hw := h.nothing hn
    have ht := s.pipe.ordered
    rw [hw] at ht
    exact ⟨.inr hn, (List.prefix_nil.1 ht).trans hw.symm⟩

/-- While the sender runs, a receiver at the end has no buffer. -/
theorem Conserved.still (h : Conserved s) {e : StreamEvent} {w : StreamWorker}
    (hs : StreamWorker.Step rate s.sender e w) (ho : s.Over) : s.receiver.buffer.length = 0 ∧ e.moved = 0 := by
  have hnone : s.receiver.buffer.length = 0 := by
    rcases ho with hc | hnone
    · rw [h.closed, StreamWorker.not_done_step hs] at hc
      cases hc
    · exact hnone
  have hle := StreamWorker.moved_le hs
  rw [h.sizes] at hle
  exact ⟨hnone, by omega⟩

theorem Conserved.sender_step (h : Conserved s) {e : StreamEvent} {w : StreamWorker}
    (hs : StreamWorker.Step rate s.sender e w) :
    Conserved { s with sender := w, pipe := (s.pipe.write (s.sender.buffer.take e.moved)).close w.isDone } := by
  obtain ⟨hrole, hsize⟩ := StreamWorker.config_step hs
  have hlen : (s.sender.buffer.take e.moved).length = e.moved := by
    rw [List.length_take]
    exact Nat.min_eq_left (StreamWorker.moved_le hs)
  have hopen : s.pipe.closed = false := h.closed.trans (StreamWorker.not_done_step hs)
  refine ⟨⟨hrole.trans h.roles.1, h.roles.2⟩, hsize.trans h.sizes, ?_, h.received, h.taken, h.undrained, ?_, ?_, ?_, ?_⟩
  · intro m hm
    obtain ⟨k, hk, rfl⟩ := StreamWorker.bytes_step hs hm
    simp [h.sent k hk, hlen]
  · simp [hopen]
  · intro hnone
    have hzero : e.moved = 0 := by
      have hle := StreamWorker.moved_le hs
      rw [h.sizes] at hle
      exact Nat.le_zero.1 (hle.trans hnone.le)
    simp [h.nothing hnone, hzero]
  · intro stats hpc
    obtain ⟨ho, ht⟩ := h.finished stats hpc
    obtain ⟨hnone, hzero⟩ := h.still hs ho
    exact ⟨.inr hnone, by simpa [hzero] using ht⟩
  · intro hended
    obtain ⟨ho, ht⟩ := h.ended hended
    obtain ⟨hnone, hzero⟩ := h.still hs ho
    exact ⟨.inr hnone, by simpa [hzero] using ht⟩

/-- A read of the select loop. -/
theorem Conserved.read_step (h : Conserved s) {n now : Nat} {w : StreamWorker} (hn : s.yields n = true)
    (hs : StreamWorker.Step rate s.receiver (.io n now) w) :
    Conserved { s with receiver := w, pipe := s.pipe.read n, counted := s.counted ++ s.pipe.rest.take n,
                       ended := n = 0 } := by
  obtain ⟨hrole, hsize⟩ := StreamWorker.config_step hs
  have hcounting : s.receiver.counting = true := by
    cases hs with
    | moved hpc | closed hpc => simp [StreamWorker.counting, hpc]
  have hdrained := h.undrained hcounting
  have htaken := h.taken
  rw [hdrained, List.append_nil] at htaken
  refine ⟨⟨h.roles.1, hrole.trans h.roles.2⟩, h.sizes.trans hsize.symm, h.sent, ?_, ?_, fun _ => hdrained, h.closed,
    fun hnone => h.nothing (hsize ▸ hnone), ?_, ?_⟩
  · intro m hm
    obtain ⟨k, hk, rfl⟩ := StreamWorker.bytes_step hs hm
    rw [List.length_append, h.received k hk, take_length hn]
    rfl
  · simp [hdrained, htaken]
  · intro stats hpc
    cases StreamWorker.finish_step hs h.roles.2 hpc
  · intro hended
    obtain rfl : n = 0 := by simpa using hended
    obtain ⟨ho, ht⟩ := h.at_end hn
    refine ⟨ho.imp_right (fun hnone => hsize ▸ hnone), ?_⟩
    simpa [htaken] using ht

/-- A read of the drain loop. -/
theorem Conserved.drain_step (h : Conserved s) {n : Nat} {w : StreamWorker} (hn : s.yields n = true)
    (hs : StreamWorker.Step rate s.receiver (.drain n) w) :
    Conserved { s with receiver := w, pipe := s.pipe.read n, drained := s.drained ++ s.pipe.rest.take n } := by
  obtain ⟨hrole, hsize⟩ := StreamWorker.config_step hs
  have hcounting : s.receiver.counting = false := by
    cases hs with
    | drains hpc | drained hpc => simp [StreamWorker.counting, hpc]
  refine ⟨⟨h.roles.1, hrole.trans h.roles.2⟩, h.sizes.trans hsize.symm, h.sent, ?_, ?_, ?_, h.closed,
    fun hnone => h.nothing (hsize ▸ hnone), ?_, ?_⟩
  · intro m hm
    obtain ⟨k, hk, hmk⟩ := StreamWorker.bytes_step hs hm
    rw [hmk]
    exact h.received k hk
  · simp [← h.taken]
  · intro hc
    rw [(StreamWorker.counting_step hs hcounting).1] at hc
    cases hc
  · intro stats hpc
    obtain rfl : n = 0 := by simpa using StreamWorker.finish_step hs h.roles.2 hpc
    obtain ⟨ho, ht⟩ := h.at_end hn
    refine ⟨ho.imp_right (fun hnone => hsize ▸ hnone), ?_⟩
    simpa using ht
  · intro hended
    obtain ⟨ho, ht⟩ := h.ended hended
    exact ⟨ho.imp_right (fun hnone => hsize ▸ hnone), ht⟩

/-- An event of the receiver's that reads nothing. -/
theorem Conserved.quiet_step (h : Conserved s) {e : StreamEvent} {w : StreamWorker}
    (hs : StreamWorker.Step rate s.receiver e w) (hio : ∀ n now, e ≠ .io n now) (hdrain : ∀ n, e ≠ .drain n) :
    Conserved { s with receiver := w } := by
  obtain ⟨hrole, hsize⟩ := StreamWorker.config_step hs
  have hmoved : e.moved = 0 := by
    cases e with
    | io n now => exact absurd rfl (hio n now)
    | _ => rfl
  refine ⟨⟨h.roles.1, hrole.trans h.roles.2⟩, h.sizes.trans hsize.symm, h.sent, ?_, h.taken, ?_, h.closed,
    fun hnone => h.nothing (hsize ▸ hnone), ?_, ?_⟩
  · intro m hm
    obtain ⟨k, hk, rfl⟩ := StreamWorker.bytes_step hs hm
    rw [hmoved]
    exact h.received k hk
  · intro hc
    apply h.undrained
    by_contra hnot
    rw [(StreamWorker.counting_step hs (by simpa using hnot)).1] at hc
    cases hc
  · intro stats hpc
    exact absurd (StreamWorker.finish_step hs h.roles.2 hpc) (hdrain 0)
  · intro hended
    obtain ⟨ho, ht⟩ := h.ended hended
    exact ⟨ho.imp_right (fun hnone => hsize ▸ hnone), ht⟩

theorem conserved_step {e : DataEvent} (hs : s.step rate e = some u) (h : Conserved s) : Conserved u := by
  cases e with
  | sender e =>
    obtain ⟨w, hw, rfl⟩ := Option.map_eq_some_iff.1 hs
    exact h.sender_step (StreamWorker.step_cases hw)
  | receiver e =>
    cases e with
    | io n now =>
      simp only [step, Option.ite_none_right_eq_some, Option.map_eq_some_iff] at hs
      obtain ⟨hn, w, hw, rfl⟩ := hs
      exact h.read_step hn (StreamWorker.step_cases hw)
    | drain n =>
      simp only [step, Option.ite_none_right_eq_some, Option.map_eq_some_iff] at hs
      obtain ⟨hn, w, hw, rfl⟩ := hs
      exact h.drain_step hn (StreamWorker.step_cases hw)
    | _ =>
      obtain ⟨w, hw, rfl⟩ := Option.map_eq_some_iff.1 hs
      exact h.quiet_step (StreamWorker.step_cases hw) (by simp) (by simp)

/-- However the two ends interleave: a receiver that returns `Ok` has counted a
prefix of what was sent and drained the rest. If the sender returns `Ok` too,
the receiver's count is at most the sender's, and the same if the end of the
stream ended the receiver's loop. -/
theorem bytes_conserved {params : TestParameters} {es : List DataEvent} (h : Run (step rate) Any (new params) es s)
    {y : StreamStats} (hy : s.receiver.pc = .done (.ok y)) :
    s.counted <+: s.pipe.written ∧ s.counted.length = y.bytesTransferred ∧
      s.counted ++ s.drained = s.pipe.written ∧
      ∀ x, s.sender.pc = .done (.ok x) → s.pipe.written.length = x.bytesTransferred ∧
        y.bytesTransferred ≤ x.bytesTransferred ∧ (s.ended = true → y.bytesTransferred = x.bytesTransferred) := by
  have hc := h.inv Conserved (.new params) (fun t e u hi _ hs => conserved_step hs hi)
  have hread : s.counted ++ s.drained = s.pipe.written := hc.taken.trans (hc.finished y hy).2
  have hcount : s.counted.length = y.bytesTransferred := hc.received _ (by simp [StreamWorker.bytes, hy])
  have hfront : s.counted <+: s.pipe.written := ⟨_, hread⟩
  refine ⟨hfront, hcount, hread, fun x hx => ?_⟩
  have hsent : s.pipe.written.length = x.bytesTransferred := hc.sent _ (by simp [StreamWorker.bytes, hx])
  refine ⟨hsent, ?_, ?_⟩
  · rw [← hcount, ← hsent]
    exact hfront.length_le
  · intro hended
    rw [← hcount, ← hsent, (hc.ended hended).2]

/-- Blocks of four bytes. The sender writes three bytes and four, and its time is
up. The receiver's controller ends its loop after two, and it drains the rest. -/
def loadRun : List DataEvent :=
  ([.start [1, 2, 3, 4], .startLoad 0 0] : List StreamEvent).map .sender ++
    ([.start [], .startLoad 5 0] : List StreamEvent).map .receiver ++
    [.sender (.io 3 10), .receiver (.io 2 12), .receiver (.terminate 15), .sender (.io 4 20), .receiver (.drain 4),
      .sender (.deadline 30), .receiver (.drain 1), .receiver (.drain 0)]

theorem bytes_conserved_seven : ∃ s x y,
    Run (step (fun _ _ => 0)) Any (new { uploadParams 1 with blockSize := 4 }) loadRun s ∧
    s.sender.pc = .done (.ok x) ∧ s.receiver.pc = .done (.ok y) ∧ x.bytesTransferred = 7 ∧ y.bytesTransferred = 2 ∧
    s.counted ++ s.drained = s.pipe.written ∧ y.bytesTransferred ≤ x.bytesTransferred := by
  obtain ⟨s, hrun, hp⟩ := exists_run_of_exec (step (fun _ _ => 0)) Any (new { uploadParams 1 with blockSize := 4 })
    loadRun (fun s => (s.sender.isDone ∧ s.sender.bytes = some 7) ∧ s.receiver.isDone ∧ s.receiver.bytes = some 2)
    (by decide +kernel)
  simp only [decide_eq_true_eq] at hp
  obtain ⟨⟨hs, hsb⟩, hr, hrb⟩ := hp
  obtain ⟨x, hx, hx7⟩ := StreamWorker.ok_of_bytes hs hsb
  obtain ⟨y, hy, hy2⟩ := StreamWorker.ok_of_bytes hr hrb
  obtain ⟨-, -, hread, hboth⟩ := bytes_conserved hrun hy
  exact ⟨s, x, y, hrun, hx, hy, hx7, hy2, hread, (hboth x hx).2.1⟩

end DataStream

end Netperf
