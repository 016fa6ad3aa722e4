import Netperf.Controller
import Netperf.Lib.Runs
/-!
# One test on the server

`run_controller` of a server's `TestController`, its worker tasks, and what the
accept loop does to the test, one event at a time. Every `await` is a place
where any other event may come first.

`sent` and `received` are the messages that went over the control socket so
far, `handled` those the controller took from its channel. `locked` says that
the accept loop holds the guard of the test's state; the controller itself
never keeps the guard across an `await`. `gone` says that the client vanished.
-/

namespace Netperf

open Maps

/-- What a caller of `set_state` does with its error. -/
inductive OnError where
  | propagate
  | ignore
deriving DecidableEq

/-- The awaits of `run_controller`. -/
inductive ServerPc where
  /-- `state.lock()` for `old_state`. -/
  | start
  /-- `state.lock()` at the top of the loop. -/
  | loopTop
  /-- `receiver.recv()` -/
  | waiting
  /-- `worker_ref.join_handle` in `process_internal_message`. -/
  | joining (id : Nat) (ref : StreamWorkerRef)
  /-- `server_send_message` in `set_state`. -/
  | writingState (s : State) (k : OnError)
  /-- `state.lock()` in `set_state`. -/
  | storingState (s : State)
  /-- `timeout(5s, join_handle)` for the streams not joined yet. -/
  | collecting (pending : Map StreamWorkerRef)
  | readingResults (results : TestResults)
  | sendingResults (results : TestResults) (remote : Option TestResults)
  /-- Over: with the results it printed, its own and the peer's, or an error. -/
  | returned (printed : Option (TestResults × TestResults))
deriving DecidableEq

structure ServerTest extends TestController where
  pc : ServerPc
  oldState : State
  sent : List ServerMessage
  received : List ClientMessage
  handled : List ControllerMessage
  locked : Bool
  gone : Bool
deriving DecidableEq

inductive ServerEvent where
  /-- The state's mutex is granted to the controller. -/
  | lock
  /-- The pending write of the control socket completes or fails. -/
  | write (ok : Bool)
  /-- The controller takes the oldest message of its channel. -/
  | recv
  /-- The awaited task is over. -/
  | join
  /-- A stream is joined in the final drain, or its five seconds are up. -/
  | collect (id : Nat) (joined : Bool)
  /-- The control socket yields a message, or an error. -/
  | read (m : Option ClientMessage)
  | worker (i : Nat) (e : WorkerEvent)
  /-- The accept loop finds the state `CreateStreams` and keeps the guard. -/
  | guard
  /-- The accept loop drops the guard. -/
  | unguard
  /-- The accept loop queues a connection and drops the guard. -/
  | offer (stream : Nat)
  | vanish
deriving DecidableEq

namespace ServerTest

def new (cookie : String) (params : TestParameters) : ServerTest :=
  { TestController.new (PerfTest.new cookie .server params) with
    pc := .start, oldState := .testStart, sent := [], received := [], handled := [], locked := false, gone := false }

def returned (t : ServerTest) : Bool :=
  match t.pc with
  | .returned _ => true
  | _ => false

/-- Some ref keeps the channel of task `i` open: in the map, or in the hands of
the controller. Returning drops them all. -/
def channelOpen (t : ServerTest) (i : Nat) : Bool :=
  let holds (m : Map StreamWorkerRef) : Bool :=
    match t.workers[i]? with
    | none => false
    | some w => m.lookup w.id = some ⟨i⟩
  match t.pc with
  | .returned _ => false
  | .joining _ ref => ref.task = i ∨ holds t.streams
  | .collecting pending => holds pending
  | _ => holds t.streams

/-- The final drain goes on, or hands over what it collected. -/
@[simps toTestController oldState sent received handled locked gone]
def collectNext (t : ServerTest) (pending : Map StreamWorkerRef) : ServerTest :=
  { t with pc := if len pending = 0 then .readingResults ⟨t.streamResults⟩ else .collecting pending }

/-- From the top of the loop to the next await. -/
def turn (t : ServerTest) : ServerTest :=
  match t.state with
  | .testStart => { t with pc := .writingState (.createStreams t.cookie) .propagate }
  | .running =>
    let c := if t.oldState ≠ .running then t.broadcastToStreams .startLoad else t.toTestController
    { t with toTestController := c, oldState := t.state, pc := .waiting }
  | .exchangeResults =>
    let c := t.broadcastToStreams .terminate
    { t with toTestController := { c with streams := ∅ } }.collectNext t.streams
  | _ => { t with oldState := t.state, pc := .waiting }

@[simps toTestController oldState sent received handled locked gone]
def acceptStream (t : ServerTest) (stream : Nat) : ServerTest :=
  let c := t.createAndRegisterStreamWorker stream
  { t with
    toTestController := c
    pc := if len c.streams = t.totalNeededStreams then .writingState .running .propagate else .loopTop }

/-- What follows the removal of a stream in `process_internal_message`. -/
@[simps toTestController oldState sent received handled locked gone]
def afterTermination (t : ServerTest) : ServerTest :=
  { t with pc := if len t.streams = 0 then .writingState .exchangeResults .ignore else .loopTop }

def processInternalMessage (t : ServerTest) : ControllerMessage → ServerTest
  | .createStream stream => t.acceptStream stream
  | .streamTerminated id =>
    match t.streams.lookup id with
    | some ref => { t with streams := t.streams.erase id, pc := .joining id ref }
    | none => t.afterTermination

def step (t : ServerTest) : ServerEvent → Option ServerTest
  | .lock =>
    if t.locked then none
    else
      match t.pc with
      | .start => some { t with oldState := t.state, pc := .loopTop }
      | .loopTop => some t.turn
      | .storingState s => some { t with state := s, pc := .loopTop }
      | _ => none
  | .write ok =>
    match t.pc with
    | .writingState s k =>
      if ok then some { t with sent := t.sent ++ [.setState s], pc := .storingState s }
      else
        match k with
        | .propagate => some { t with pc := .returned none }
        | .ignore => some { t with pc := .loopTop }
    | .sendingResults results remote =>
      if ok then
        some { t with sent := t.sent ++ [.sendResults results], pc := .returned (remote.map (fun r => (results, r))) }
      else some { t with pc := .returned none }
    | _ => none
  | .recv =>
    match t.pc, t.queue with
    | .waiting, m :: rest =>
      some ({ t with queue := rest, handled := t.handled ++ [m] }.processInternalMessage m)
    | _, _ => none
  | .join =>
    match t.pc with
    | .joining id ref =>
      match t.taskResult ref with
      | none => none
      | some .panicked => some { t with pc := .returned none }
      | some r => some ({ t with toTestController := t.keepResult id r }.afterTermination)
    | _ => none
  | .collect id joined =>
    match t.pc with
    | .collecting pending =>
      match pending.lookup id with
      | none => none
      | some ref =>
        match t.taskResult ref, joined with
        | some r, true => some ({ t with toTestController := t.keepResult id r }.collectNext (pending.erase id))
        | none, false => some (t.collectNext (pending.erase id))
        | _, _ => none
    | _ => none
  | .read m =>
    match t.pc with
    | .readingResults results =>
      match m with
      | none => some { t with pc := .returned none }
      | some m =>
        -- any other message is an error, reported only after our own results are sent
        let remote := match m with
          | .sendResults r => some r
          | _ => none
        some { t with received := t.received ++ [m], pc := .sendingResults results remote }
    | _ => none
  | .worker i e =>
    (t.workerStep (!t.returned) (t.channelOpen i) i e).map (fun c => { t with toTestController := c })
  | .guard =>
    if t.locked then none
    else
      match t.state with
      | .createStreams _ => some { t with locked := true }
      | _ => none
  | .unguard => if t.locked then some { t with locked := false } else none
  | .offer stream =>
    if t.locked ∧ !t.returned then
      (t.trySend (.createStream stream)).map (fun c => { t with toTestController := c, locked := false })
    else none
  | .vanish => some { t with gone := true }

/-! ## The transitions -/

/-- Everything an event can do: the branches of `step`, one constructor each. -/
inductive Step : ServerTest → ServerEvent → ServerTest → Prop
  | start {t} : t.locked = false → t.pc = .start →
      Step t .lock { t with oldState := t.state, pc := .loopTop }
  | announce {t} : t.locked = false → t.pc = .loopTop → t.state = .testStart →
      Step t .lock { t with pc := .writingState (.createStreams t.cookie) .propagate }
  | startLoad {t} : t.locked = false → t.pc = .loopTop → t.state = .running → t.oldState ≠ .running →
      Step t .lock { t with toTestController := t.broadcastToStreams .startLoad, oldState := t.state, pc := .waiting }
  | wait {t} : t.locked = false → t.pc = .loopTop →
      ((∃ cookie, t.state = .createStreams cookie) ∨ (t.state = .running ∧ t.oldState = .running) ∨
        t.state = .displayResults) →
      Step t .lock { t with oldState := t.state, pc := .waiting }
  | finish {t} : t.locked = false → t.pc = .loopTop → t.state = .exchangeResults →
      Step t .lock ({ t with toTestController := { t.broadcastToStreams .terminate with streams := ∅ } }.collectNext
        t.streams)
  | store {t s} : t.locked = false → t.pc = .storingState s → Step t .lock { t with state := s, pc := .loopTop }
  | wrote {t s k} : t.pc = .writingState s k →
      Step t (.write true) { t with sent := t.sent ++ [.setState s], pc := .storingState s }
  | writeFailed {t s} : t.pc = .writingState s .propagate → Step t (.write false) { t with pc := .returned none }
  | writeIgnored {t s} : t.pc = .writingState s .ignore → Step t (.write false) { t with pc := .loopTop }
  | sentResults {t results remote} : t.pc = .sendingResults results remote →
      Step t (.write true)
        { t with sent := t.sent ++ [.sendResults results], pc := .returned (remote.map (fun r => (results, r))) }
  | sendFailed {t results remote} : t.pc = .sendingResults results remote →
      Step t (.write false) { t with pc := .returned none }
  | accept {t stream rest} : t.pc = .waiting → t.queue = .createStream stream :: rest →
      Step t .recv ({ t with queue := rest, handled := t.handled ++ [ControllerMessage.createStream stream] }.acceptStream stream)
  | terminated {t id ref rest} : t.pc = .waiting → t.queue = .streamTerminated id :: rest →
      t.streams.lookup id = some ref →
      Step t .recv { t with queue := rest, handled := t.handled ++ [.streamTerminated id],
                            streams := t.streams.erase id, pc := .joining id ref }
  | unknown {t id rest} : t.pc = .waiting → t.queue = .streamTerminated id :: rest → t.streams.lookup id = none →
      Step t .recv ({ t with queue := rest, handled := t.handled ++ [ControllerMessage.streamTerminated id] }.afterTermination)
  | joined {t id ref r} : t.pc = .joining id ref → t.taskResult ref = some r → r ≠ .panicked →
      Step t .join ({ t with toTestController := t.keepResult id r }.afterTermination)
  | joinFailed {t id ref} : t.pc = .joining id ref → t.taskResult ref = some .panicked →
      Step t .join { t with pc := .returned none }
  | collected {t id pending ref r} : t.pc = .collecting pending → pending.lookup id = some ref →
      t.taskResult ref = some r →
      Step t (.collect id true) ({ t with toTestController := t.keepResult id r }.collectNext (pending.erase id))
  | timedOut {t id pending ref} : t.pc = .collecting pending → pending.lookup id = some ref →
      t.taskResult ref = none → Step t (.collect id false) (t.collectNext (pending.erase id))
  | readFailed {t results} : t.pc = .readingResults results → Step t (.read none) { t with pc := .returned none }
  | readResults {t results r} : t.pc = .readingResults results →
      Step t (.read (some (.sendResults r)))
        { t with received := t.received ++ [.sendResults r], pc := .sendingResults results (some r) }
  | readOther {t results m} : t.pc = .readingResults results → (∀ r, m ≠ .sendResults r) →
      Step t (.read (some m)) { t with received := t.received ++ [m], pc := .sendingResults results none }
  | worker {t i e c} : t.workerStep (!t.returned) (t.channelOpen i) i e = some c →
      Step t (.worker i e) { t with toTestController := c }
  | guard {t cookie} : t.locked = false → t.state = .createStreams cookie → Step t .guard { t with locked := true }
  | unguard {t} : t.locked = true → Step t .unguard { t with locked := false }
  | offer {t stream} : t.locked = true → t.returned = false → t.queue.length < internalProtBuffer →
      Step t (.offer stream) { t with queue := t.queue ++ [.createStream stream], locked := false }
  | vanish {t} : Step t .vanish { t with gone := true }

theorem lock_cases {t u : ServerTest} (h : t.step .lock = some u) : Step t .lock u := by
  simp only [step, Option.ite_none_left_eq_some] at h
  obtain ⟨hl, h⟩ := h
  have hl : t.locked = false := by simpa using hl
  split at h
  · rename_i hpc
    exact Option.some.inj h ▸ .start hl hpc
  · rename_i hpc
    have h := Option.some.inj h
    subst h
    unfold turn
    split
    · rename_i hs
      exact .announce hl hpc hs
    · rename_i hs
      by_cases ho : t.oldState = .running
      · simpa [ho] using Step.wait hl hpc (.inr (.inl ⟨hs, ho⟩))
      · simpa [ho] using Step.startLoad hl hpc hs ho
    · rename_i hs
      exact .finish hl hpc hs
    · rename_i h1 h2 h3
      refine .wait hl hpc ?_
      cases hs : t.state with
      | createStreams cookie => exact .inl ⟨cookie, rfl⟩
      | displayResults => exact .inr (.inr rfl)
      | _ => simp_all
  · rename_i hpc
    exact Option.some.inj h ▸ .store hl hpc
  · cases h

theorem recv_cases {t u : ServerTest} (h : t.step .recv = some u) : Step t .recv u := by
  simp only [step] at h
  split at h
  · rename_i m rest hpc hq
    have h := Option.some.inj h
    subst h
    cases m with
    | createStream stream => exact .accept hpc hq
    | streamTerminated id =>
      simp only [processInternalMessage]
      split
      · rename_i ref hl
        exact .terminated hpc hq hl
      · rename_i hl
        exact .unknown hpc hq hl
  · cases h

theorem write_cases {t u : ServerTest} {ok : Bool} (h : t.step (.write ok) = some u) : Step t (.write ok) u := by
  simp only [step] at h
  split at h
  · rename_i s k hpc
    cases ok with
    | true => exact Option.some.inj h ▸ .wrote hpc
    | false =>
      cases k with
      | propagate => exact Option.some.inj h ▸ .writeFailed hpc
      | ignore => exact Option.some.inj h ▸ .writeIgnored hpc
  · rename_i results remote hpc
    cases ok with
    | true => exact Option.some.inj h ▸ .sentResults hpc
    | false => exact Option.some.inj h ▸ .sendFailed hpc
  · cases h

theorem collect_cases {t u : ServerTest} {id : Nat} {joined : Bool} (h : t.step (.collect id joined) = some u) :
    Step t (.collect id joined) u := by
  simp only [step] at h
  split at h
  · rename_i pending hpc
    split at h
    · cases h
    · rename_i ref href
      split at h
      · rename_i r hr
        exact Option.some.inj h ▸ .collected hpc href hr
      · rename_i hr
        exact Option.some.inj h ▸ .timedOut hpc href hr
      · cases h
  · cases h

/-- An enabled event is one of the transitions. -/
theorem step_cases {t u : ServerTest} {e : ServerEvent} (h : t.step e = some u) : Step t e u := by
  cases e with
  | lock => exact lock_cases h
  | write ok => exact write_cases h
  | recv => exact recv_cases h
  | join =>
    simp only [step] at h
    split at h
    · rename_i id ref hpc
      split at h
      · cases h
      · rename_i hr
        exact Option.some.inj h ▸ .joinFailed hpc hr
      · rename_i r hne hr
        exact Option.some.inj h ▸ .joined hpc hr hne
    · cases h
  | collect id joined => exact collect_cases h
  | read m =>
    simp only [step] at h
    split at h
    · rename_i results hpc
      split at h
      · exact Option.some.inj h ▸ .readFailed hpc
      · rename_i m
        have h := Option.some.inj h
        subst h
        cases m with
        | sendResults r => exact .readResults hpc
        | _ => exact .readOther hpc (by simp)
    · cases h
  | worker i e =>
    simp only [step, Option.map_eq_some_iff] at h
    obtain ⟨c, hc, rfl⟩ := h
    exact .worker hc
  | guard =>
    simp only [step, Option.ite_none_left_eq_some] at h
    obtain ⟨hl, h⟩ := h
    split at h
    · rename_i cookie hs
      exact Option.some.inj h ▸ .guard (by simpa using hl) hs
    · cases h
  | unguard =>
    simp only [step, Option.ite_none_right_eq_some, Option.some.injEq] at h
    obtain ⟨hl, rfl⟩ := h
    exact .unguard hl
  | offer stream =>
    simp only [step, Option.ite_none_right_eq_some, Option.map_eq_some_iff, TestController.trySend,
      Option.some.injEq] at h
    obtain ⟨⟨hl, hr⟩, c, ⟨hq, rfl⟩, rfl⟩ := h
    exact .offer hl (by simpa using hr) hq
  | vanish => exact Option.some.inj h ▸ .vanish

theorem workerStep_test {t : ServerTest} {alive o : Bool} {i : Nat} {e : WorkerEvent} {c : TestController}
    (h : t.workerStep alive o i e = some c) : c.toPerfTest = t.toPerfTest := by
  obtain ⟨-, -, -, -, -, ht, -⟩ := TestController.workerStep_spec h
  exact ht

theorem config_of_step {t u : ServerTest} {e : ServerEvent} (h : Step t e u) : u.config = t.config := by
  cases h with
  | worker hw => simp [workerStep_test hw]
  | _ => simp [PerfTest.config]

/-- A controller that has returned stays so. -/
theorem returned_of_step {t u : ServerTest} {e : ServerEvent} (h : Step t e u) (hu : u.returned = false) :
    t.returned = false := by
  cases h <;> simp_all [returned]

end ServerTest

end Netperf
