import Netperf.Control
import Mathlib.Data.List.Count
/-!
# The test controller and its stream workers

What the server's and the client's controller share: the `PerfTest`, the map of
running streams, the channel from the worker tasks back to the controller, and
the tasks themselves. A `TcpStream` is the number of its connection.

`run_worker` is modelled by the points at which its task waits. What it counts
inside its select loop is the argument of the `stop` event.
-/

namespace Netperf

open Maps

/-! ## Stream workers (`stream_worker.rs`) -/

inductive WorkerMessage where
  | startLoad
  | terminate
deriving DecidableEq, Repr

/-- What joining a worker's task yields: the `Ok` or `Err` that `run_worker`
returned, or a join error because the task panicked. -/
inductive TaskResult where
  | ok (stats : StreamStats)
  | err
  | panicked
deriving DecidableEq

/-- Where `run_worker` is: not polled yet, waiting for `StartLoad`, in the
select loop, draining its socket before it returns `stats`, or over. -/
inductive WorkerPc where
  | spawned
  | waiting
  | loading
  | draining (stats : StreamStats)
  | done (r : TaskResult)
deriving DecidableEq

structure Worker where
  id : Nat
  stream : Nat
  isSending : Bool
  inbox : List WorkerMessage
  pc : WorkerPc
deriving DecidableEq

inductive WorkerEvent where
  /-- The buffer is there (and filled with random bytes on a sender). -/
  | start
  /-- `getrandom::fill` on a sender, or a read or write of the stream, fails. -/
  | fail
  /-- `receiver.recv()` yields. -/
  | message
  /-- The select loop is left: the deadline, `Terminate`, a closed channel or a
  zero-byte completion. `stats` is what has been counted. -/
  | stop (stats : StreamStats)
  /-- The drain loop reads the end of the stream. -/
  | drained
  | panic
deriving DecidableEq

def Worker.step (w : Worker) (channelOpen : Bool) : WorkerEvent → Option Worker
  | .start =>
    match w.pc with
    | .spawned => some { w with pc := .waiting }
    | _ => none
  | .fail =>
    match w.pc with
    | .spawned => if w.isSending then some { w with pc := .done .err } else none
    | .loading => some { w with pc := .done .err }
    | .draining _ => some { w with pc := .done .err }
    | _ => none
  | .message =>
    match w.pc, w.inbox with
    | .waiting, .startLoad :: rest => some { w with inbox := rest, pc := .loading }
    | .waiting, .terminate :: rest => some { w with inbox := rest, pc := .done .err }
    | .waiting, [] => if channelOpen then none else some { w with pc := .done .err }
    -- a second StartLoad is only warned about; the other messages end the loop (`stop`)
    | .loading, .startLoad :: rest => some { w with inbox := rest }
    | _, _ => none
  | .stop stats =>
    match w.pc with
    | .loading =>
      let stats := { stats with sender := w.isSending }
      some { w with pc := if w.isSending then .done (.ok stats) else .draining stats }
    | _ => none
  | .drained =>
    match w.pc with
    | .draining stats => some { w with pc := .done (.ok stats) }
    | _ => none
  | .panic =>
    match w.pc with
    | .done _ => none
    | _ => some { w with pc := .done .panicked }

/-- The task is over and did not panic: `run_worker` returned. -/
def WorkerPc.returned : WorkerPc → Bool
  | .done .panicked => false
  | .done _ => true
  | _ => false

def WorkerPc.isDone : WorkerPc → Bool
  | .done _ => true
  | _ => false

def Worker.returned (w : Worker) : Bool := w.pc.returned

def Worker.isDone (w : Worker) : Bool := w.pc.isDone

/-- `channel.try_send`: a full channel, or one whose receiver is gone, loses the
message; the sender only logs that. -/
def Worker.trySend (w : Worker) (m : WorkerMessage) : Worker :=
  if w.isDone ∨ internalProtBuffer ≤ w.inbox.length then w else { w with inbox := w.inbox ++ [m] }

/-! ## The test (`perf_test.rs`) -/

/-- The channel and the join handle of a task: the number of the task. -/
structure StreamWorkerRef where
  task : Nat
deriving DecidableEq

structure PerfTest where
  cookie : String
  state : State
  params : TestParameters
  role : Role
  streams : Map StreamWorkerRef
  numSendStreams : UInt16
  numReceiveStreams : UInt16
deriving DecidableEq

def PerfTest.new (cookie : String) (role : Role) (params : TestParameters) : PerfTest :=
  let (send, receive) : UInt16 × UInt16 :=
    match params.direction with
    | .clientToServer => (params.parallel, 0)
    | .serverToClient => (0, params.parallel)
    | .bidirectional => (params.parallel, params.parallel)
  -- the server swaps the two
  let (send, receive) := if role = .server then (receive, send) else (send, receive)
  { cookie, state := .testStart, params, role, streams := ∅, numSendStreams := send, numReceiveStreams := receive }

/-- An upload test of ten seconds. -/
def uploadParams (parallel : UInt16) : TestParameters :=
  { direction := .clientToServer, omitSeconds := 0, timeSeconds := 10, parallel, blockSize := 131072,
    clientVersion := "0.2.9", socketBuffers := none, measureLatency := false }

/-- The sum is taken in `u16`, where it wraps, and widened then. -/
def PerfTest.totalNeededStreams (t : PerfTest) : Nat := (t.numSendStreams + t.numReceiveStreams).toNat

/-- What is fixed when a test is created. -/
def PerfTest.config (t : PerfTest) : String × Role × TestParameters × UInt16 × UInt16 :=
  (t.cookie, t.role, t.params, t.numSendStreams, t.numReceiveStreams)

theorem PerfTest.totalNeededStreams_config {t u : PerfTest} (h : t.config = u.config) :
    t.totalNeededStreams = u.totalNeededStreams := by
  simp only [config, Prod.mk.injEq] at h
  obtain ⟨-, -, -, hsend, hreceive⟩ := h
  simp only [totalNeededStreams, hsend, hreceive]

/-! ## The controller (`controller.rs`) -/

inductive ControllerMessage where
  | createStream (stream : Nat)
  | streamTerminated (id : Nat)
deriving DecidableEq

/-- A `TestController`, with the contents of its channel and the tasks it has
spawned, finished ones included. -/
structure TestController extends PerfTest where
  queue : List ControllerMessage
  streamResults : Map StreamStats
  workers : List Worker
deriving DecidableEq

def TestController.new (test : PerfTest) : TestController :=
  { test with queue := [], streamResults := ∅, workers := [] }

/-- The direction a stream gets, by the number of streams created before it. -/
def PerfTest.isSendingAt (t : PerfTest) (streamsCreated : Nat) : Bool :=
  let isSending : Bool := streamsCreated < t.numSendStreams.toNat
  if t.role = .server ∧ t.params.direction = .bidirectional then !isSending else isSending

theorem PerfTest.isSendingAt_config {t u : PerfTest} (h : t.config = u.config) (i : Nat) :
    t.isSendingAt i = u.isSendingAt i := by
  simp only [config, Prod.mk.injEq] at h
  obtain ⟨-, hrole, hparams, hsend, -⟩ := h
  simp only [isSendingAt, hrole, hparams, hsend]

def PerfTest.nextIsSending (t : PerfTest) : Bool := t.isSendingAt (len t.streams)

@[simps cookie state params role numSendStreams numReceiveStreams queue streamResults]
def TestController.createAndRegisterStreamWorker (c : TestController) (stream : Nat) : TestController :=
  let id := len c.streams
  let worker : Worker := { id, stream, isSending := c.nextIsSending, inbox := [], pc := .spawned }
  { c with workers := c.workers ++ [worker], streams := c.streams.insert id ⟨c.workers.length⟩ }

/-- Sends to every stream in the map. A task's ref stands under the id its
worker was registered with. -/
@[simps toPerfTest queue streamResults]
def TestController.broadcastToStreams (c : TestController) (m : WorkerMessage) : TestController :=
  { c with workers := c.workers.mapIdx (fun i w => if c.streams.lookup w.id = some ⟨i⟩ then w.trySend m else w) }

/-- `Sender::try_send` on the controller's channel. -/
def TestController.trySend (c : TestController) (m : ControllerMessage) : Option TestController :=
  if c.queue.length < internalProtBuffer then some { c with queue := c.queue ++ [m] } else none

/-- One step of worker task `i`. When `run_worker` returns, the task tries to
send `StreamTerminated`, which fails unnoticed when the channel is full or the
controller is gone, and ends. -/
def TestController.workerStep (c : TestController) (alive channelOpen : Bool) (i : Nat) (e : WorkerEvent) :
    Option TestController :=
  match c.workers[i]? with
  | none => none
  | some w =>
    match w.step channelOpen e with
    | none => none
    | some w' =>
      let c' := { c with workers := c.workers.set i w' }
      if w'.returned ∧ alive then some ((c'.trySend (.streamTerminated w.id)).getD c') else some c'

/-- Some step of task `i` ends it. -/
def TestController.ends (c : TestController) (channelOpen : Bool) (i : Nat) (e : WorkerEvent) : Bool :=
  (c.workers[i]?).any (fun w => (w.step channelOpen e).any Worker.isDone)

def WorkerPc.result : WorkerPc → Option TaskResult
  | .done r => some r
  | _ => none

/-- What the task of a ref has returned, when it is over. -/
def TestController.taskResult (c : TestController) (ref : StreamWorkerRef) : Option TaskResult :=
  (c.workers[ref.task]?).bind (fun w => w.pc.result)

theorem TestController.taskResult_of_returned {c : TestController} {ref : StreamWorkerRef} {w : Worker}
    (hw : c.workers[ref.task]? = some w) (hr : w.returned = true) : ∃ r, c.taskResult ref = some r := by
  unfold Worker.returned WorkerPc.returned at hr
  unfold TestController.taskResult WorkerPc.result
  rw [hw, Option.bind_some]
  split at hr <;> simp_all

theorem TestController.pc_of_taskResult {c : TestController} {ref : StreamWorkerRef} {w : Worker} {r : TaskResult}
    (hw : c.workers[ref.task]? = some w) (hr : c.taskResult ref = some r) : w.pc = .done r := by
  unfold TestController.taskResult at hr
  rw [hw, Option.bind_some] at hr
  unfold WorkerPc.result at hr
  split at hr <;> simp_all

/-- Keeps the stats of a joined stream. A worker's error only leaves the results
partial. -/
def TestController.keepResult (c : TestController) (id : Nat) (r : TaskResult) : TestController :=
  match r with
  | .ok stats => { c with streamResults := c.streamResults.insert id stats }
  | _ => c

/-! ## What these operations change -/

theorem Worker.step_spec {w w' : Worker} {o : Bool} {e : WorkerEvent} (h : w.step o e = some w') :
    w'.id = w.id ∧ w'.stream = w.stream ∧ w'.isSending = w.isSending ∧ w.isDone = false := by
  cases e <;> simp only [Worker.step] at h <;> (repeat' split at h) <;>
    simp_all [Worker.isDone, WorkerPc.isDone] <;> subst h <;> simp

section
variable {w w' : Worker} {o : Bool} {e : WorkerEvent}

theorem Worker.step_panicked (h : w.step o e = some w') (hp : w'.pc = .done .panicked) : e = .panic := by
  cases e <;> simp only [Worker.step] at h <;> (repeat' split at h) <;> simp_all <;> subst h <;> simp_all

/-- Before the load a worker only gets its buffer. -/
theorem Worker.step_early (h : w.step o e = some w') (hp : w'.pc = .spawned ∨ w'.pc = .waiting) :
    (w.pc = .spawned ∨ w.pc = .waiting) ∧ w'.inbox = w.inbox := by
  cases e <;> simp only [Worker.step] at h <;> (repeat' split at h) <;> simp_all <;> subst h <;> simp_all

theorem Worker.step_inbox (h : w.step o e = some w') (hi : w.inbox = []) : w'.inbox = [] := by
  cases e <;> simp only [Worker.step] at h <;> (repeat' split at h) <;> simp_all <;> subst h <;> simp_all

/-- A worker's own steps only take messages. -/
theorem Worker.step_inbox_le (h : w.step o e = some w') : w'.inbox.length ≤ w.inbox.length := by
  cases e <;> simp only [Worker.step] at h <;> (repeat' split at h) <;> simp_all <;> subst h <;> simp_all

theorem Worker.done_cases (h : w.isDone = true) : w.returned = true ∨ w.pc = .done .panicked := by
  obtain ⟨_, _, _, _, pc⟩ := w
  cases pc with
  | done r => cases r <;> simp [Worker.returned, WorkerPc.returned]
  | _ => cases h

end

/-- What a message to a worker leaves alone. -/
def Worker.stage (w : Worker) : Nat × Nat × Bool × WorkerPc := (w.id, w.stream, w.isSending, w.pc)

theorem Worker.trySend_stage (w : Worker) (m : WorkerMessage) : (w.trySend m).stage = w.stage := by
  unfold Worker.trySend
  split <;> rfl

theorem Worker.trySend_if_stage (w : Worker) (m : WorkerMessage) (p : Prop) [Decidable p] :
    (if p then w.trySend m else w).stage = w.stage := by
  split
  · exact w.trySend_stage m
  · rfl

theorem Worker.trySend_if_pc (w : Worker) (m : WorkerMessage) (p : Prop) [Decidable p] :
    (if p then w.trySend m else w).pc = w.pc := congrArg (fun x => x.2.2.2) (w.trySend_if_stage m p)

theorem Worker.not_returned_of_not_done {w : Worker} (h : w.isDone = false) : w.returned = false := by
  unfold Worker.isDone at h
  unfold Worker.returned
  cases hpc : w.pc <;> simp_all [WorkerPc.isDone, WorkerPc.returned]

namespace TestController
variable (c : TestController)

theorem broadcast_stage (m : WorkerMessage) :
    (c.broadcastToStreams m).workers.map Worker.stage = c.workers.map Worker.stage := by
  apply List.ext_getElem?
  intro i
  simp only [broadcastToStreams, List.getElem?_map, List.getElem?_mapIdx, Option.map_map]
  cases c.workers[i]? with
  | none => rfl
  | some w =>
    simp only [Option.map_some, Function.comp_apply, Option.some.injEq]
    exact w.trySend_if_stage m _

/-- The worker at a place before a broadcast, seen after it. -/
theorem broadcast_getElem {m : WorkerMessage} {i : Nat} {w : Worker} (h : c.workers[i]? = some w) :
    (c.broadcastToStreams m).workers[i]? =
      some (if c.streams.lookup w.id = some ⟨i⟩ then w.trySend m else w) := by
  simp [broadcastToStreams, List.getElem?_mapIdx, h]

/-- A worker seen after a broadcast was there before it. -/
theorem broadcast_origin {m : WorkerMessage} {i : Nat} {w' : Worker}
    (h : (c.broadcastToStreams m).workers[i]? = some w') :
    ∃ w, c.workers[i]? = some w ∧ w' = if c.streams.lookup w.id = some ⟨i⟩ then w.trySend m else w := by
  simp only [broadcastToStreams, List.getElem?_mapIdx, Option.map_eq_some_iff] at h
  obtain ⟨w, hw, rfl⟩ := h
  exact ⟨w, hw, rfl⟩

theorem broadcast_keeps {m : WorkerMessage} {i : Nat} {w : Worker} (h : c.workers[i]? = some w) :
    ∃ w', (c.broadcastToStreams m).workers[i]? = some w' ∧ w'.stage = w.stage := by
  exact ⟨_, c.broadcast_getElem h, w.trySend_if_stage m _⟩

/-- The cases of a worker's step: it goes on, it returns and its notice is
queued, or it ends without a notice. -/
theorem workerStep_cases {c c' : TestController} {alive o : Bool} {i : Nat} {e : WorkerEvent}
    (h : c.workerStep alive o i e = some c') :
    ∃ w w', c.workers[i]? = some w ∧ w.step o e = some w' ∧
      ((w'.returned = true ∧ c.queue.length < internalProtBuffer ∧
          c' = { c with workers := c.workers.set i w', queue := c.queue ++ [.streamTerminated w.id] }) ∨
        ((w'.returned = true → alive = true → internalProtBuffer ≤ c.queue.length) ∧
          c' = { c with workers := c.workers.set i w' })) := by
  unfold workerStep at h
  split at h
  · cases h
  rename_i w hw
  split at h
  · cases h
  rename_i w' hw'
  refine ⟨w, w', hw, hw', ?_⟩
  split at h
  · rename_i hr
    simp only [trySend] at h
    split at h
    · rename_i hq
      simp only [Option.getD_some, Option.some.injEq] at h
      exact .inl ⟨hr.1, hq, h.symm⟩
    · rename_i hq
      simp only [Option.getD_none, Option.some.injEq] at h
      exact .inr ⟨fun _ _ => Nat.le_of_not_lt hq, h.symm⟩
  · rename_i hr
    simp only [Option.some.injEq] at h
    exact .inr ⟨fun h1 h2 => absurd ⟨h1, h2⟩ hr, h.symm⟩

/-- What a worker's step changes: the worker, and at most one more notice. -/
theorem workerStep_spec {c c' : TestController} {alive o : Bool} {i : Nat} {e : WorkerEvent}
    (h : c.workerStep alive o i e = some c') :
    ∃ w w', c.workers[i]? = some w ∧ w.step o e = some w' ∧ c'.workers = c.workers.set i w' ∧
      c'.toPerfTest = c.toPerfTest ∧ (c'.queue = c.queue ∨ c'.queue = c.queue ++ [.streamTerminated w.id]) := by
  obtain ⟨w, w', hw, hs, ⟨-, -, rfl⟩ | ⟨-, rfl⟩⟩ := workerStep_cases h
  · exact ⟨w, w', hw, hs, rfl, rfl, .inr rfl⟩
  · exact ⟨w, w', hw, hs, rfl, rfl, .inl rfl⟩

theorem workerStep_results {c c' : TestController} {alive o : Bool} {i : Nat} {e : WorkerEvent}
    (h : c.workerStep alive o i e = some c') : c'.streamResults = c.streamResults := by
  obtain ⟨-, -, -, -, ⟨-, -, rfl⟩ | ⟨-, rfl⟩⟩ := workerStep_cases h
  · rfl
  · rfl

@[simp] theorem keepResult_queue (id : Nat) (r : TaskResult) : (c.keepResult id r).queue = c.queue := by
  cases r <;> rfl

@[simp] theorem keepResult_workers (id : Nat) (r : TaskResult) : (c.keepResult id r).workers = c.workers := by
  cases r <;> rfl

@[simp] theorem keepResult_test (id : Nat) (r : TaskResult) : (c.keepResult id r).toPerfTest = c.toPerfTest := by
  cases r <;> rfl

end TestController

end Netperf
