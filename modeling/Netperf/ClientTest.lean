import Netperf.Controller
import Netperf.Lib.Runs
/-!
# One test on the client

`run_controller` of a client's `TestController`. Nobody else locks its state.
Between two messages it waits in a `select!` for its own channel and for the
control socket.

`sent` are the messages it wrote on the control socket, `received` the results
of the reads it finished: those `process_server_message` got, and the one
`exchange_results` read.
-/

namespace Netperf

open Maps

/-- The awaits of `run_controller`. -/
inductive ClientPc where
  /-- `state.lock()` for `old_state`. -/
  | start
  /-- `state.lock()` at the top of the loop. -/
  | loopTop
  /-- The `select!` of `receiver.recv()` and `client_read_message`. -/
  | selecting
  /-- `worker_ref.join_handle` in `process_internal_message`. -/
  | joining (id : Nat) (ref : StreamWorkerRef)
  /-- `state.lock()` in `set_state`. -/
  | storingState (s : State)
  /-- `connect_data_stream()` -/
  | connecting
  /-- `timeout(5s, join_handle)` for the streams not joined yet. -/
  | collecting (pending : Map StreamWorkerRef)
  | sendingResults (results : TestResults)
  | readingResults (results : TestResults)
  /-- Over: with the results it printed, its own and the peer's, or an error. -/
  | returned (printed : Option (TestResults × TestResults))
deriving DecidableEq

structure ClientTest extends TestController where
  pc : ClientPc
  oldState : State
  sent : List ClientMessage
  received : List (Except AnyError ServerMessage)

inductive ClientEvent where
  | lock
  /-- `select!` takes the oldest message of the controller's channel. -/
  | recv
  /-- The pending read of the control socket is done. -/
  | read (r : Except AnyError ServerMessage)
  | join
  | collect (id : Nat) (joined : Bool)
  /-- A data connection is there, with the server's answer read, or it failed. -/
  | connect (stream : Option Nat)
  | write (ok : Bool)
  | worker (i : Nat) (e : WorkerEvent)

namespace ClientTest

def new (cookie : String) (params : TestParameters) : ClientTest :=
  { TestController.new (PerfTest.new cookie .client params) with
    pc := .start, oldState := .testStart, sent := [], received := [] }

def returned (t : ClientTest) : Bool :=
  match t.pc with
  | .returned _ => true
  | _ => false

/-- Some ref keeps the channel of task `i` open: in the map, or in the hands of
the controller. -/
def channelOpen (t : ClientTest) (i : Nat) : Bool :=
  let holds (m : Map StreamWorkerRef) : Bool :=
    match t.workers[i]? with
    | none => false
    | some w => m.lookup w.id = some ⟨i⟩
  match t.pc with
  | .returned _ => false
  | .joining _ ref => ref.task = i ∨ holds t.streams
  | .collecting pending => holds pending
  | _ => holds t.streams

/-- The final drain goes on, or hands over what it collected. -/
@[simps toTestController oldState sent received]
def collectNext (t : ClientTest) (pending : Map StreamWorkerRef) : ClientTest :=
  { t with pc := if len pending = 0 then .sendingResults ⟨t.streamResults⟩ else .collecting pending }

/-- `create_streams` goes on while streams are missing. -/
@[simps toTestController sent received]
def createStreams (t : ClientTest) : ClientTest :=
  let missing := len t.streams < t.totalNeededStreams
  { t with oldState := if missing then t.oldState else t.state, pc := if missing then .connecting else .selecting }

/-- From the top of the loop to the next await. -/
def turn (t : ClientTest) : ClientTest :=
  match t.state with
  | .createStreams _ => t.createStreams
  | .running =>
    let c := if t.oldState ≠ .running then t.broadcastToStreams .startLoad else t.toTestController
    { t with toTestController := c, oldState := t.state, pc := .selecting }
  | .exchangeResults =>
    let c := t.broadcastToStreams .terminate
    { t with toTestController := { c with streams := ∅ } }.collectNext t.streams
  | _ => { t with oldState := t.state, pc := .selecting }

def processInternalMessage (t : ClientTest) : ControllerMessage → ClientTest
  -- `accept_stream` asserts that this is a server
  | .createStream _ => { t with pc := .returned none }
  | .streamTerminated id =>
    match t.streams.lookup id with
    | some ref => { t with streams := t.streams.erase id, pc := .joining id ref }
    | none => { t with pc := .loopTop }

def processServerMessage (t : ClientTest) : Except AnyError ServerMessage → ClientTest
  | .error _ => { t with pc := .returned none }
  | .ok (.setState s) => { t with pc := .storingState s }
  | .ok _ => { t with pc := .loopTop }

def step (t : ClientTest) : ClientEvent → Option ClientTest
  | .lock =>
    match t.pc with
    | .start => some { t with oldState := t.state, pc := .loopTop }
    | .loopTop => some t.turn
    | .storingState s => some { t with state := s, pc := .loopTop }
    | _ => none
  | .recv =>
    match t.pc, t.queue with
    | .selecting, m :: rest => some ({ t with queue := rest }.processInternalMessage m)
    | _, _ => none
  | .read r =>
    match t.pc with
    | .selecting => some ({ t with received := t.received ++ [r] }.processServerMessage r)
    | .readingResults results =>
      let printed := match r with
        | .ok (.sendResults remote) => some (results, remote)
        | _ => none
      some { t with received := t.received ++ [r], pc := .returned printed }
    | _ => none
  | .join =>
    match t.pc with
    | .joining id ref =>
      match t.taskResult ref with
      | none => none
      | some .panicked => some { t with pc := .returned none }
      | some r => some { t with toTestController := t.keepResult id r, pc := .loopTop }
    | _ => none
  | .collect id joined =>
    match t.pc with
    | .collecting pending =>
      match pending.lookup id with
      | none => none
      | some ref =>
        match t.taskResult ref, joined with
        | some r, true => some ({ t with toTestController := t.keepResult id r }.collectNext (pending.erase id))
        | none, false => some (t.collectNext (pending.erase id))
        | _, _ => none
    | _ => none
  | .connect stream =>
    match t.pc with
    | .connecting =>
      match stream with
      | some stream => some { t with toTestController := t.createAndRegisterStreamWorker stream }.createStreams
      | none => some { t with pc := .returned none }
    | _ => none
  | .write ok =>
    match t.pc with
    | .sendingResults results =>
      if ok then some { t with sent := t.sent ++ [.sendResults results], pc := .readingResults results }
      else some { t with pc := .returned none }
    | _ => none
  | .worker i e =>
    (t.workerStep (!t.returned) (t.channelOpen i) i e).map (fun c => { t with toTestController := c })

/-! ## The transitions -/

/-- Everything an event can do: the branches of `step`, one constructor each. -/
inductive Step : ClientTest → ClientEvent → ClientTest → Prop
  | start {t} : t.pc = .start → Step t .lock { t with oldState := t.state, pc := .loopTop }
  | create {t cookie} : t.pc = .loopTop → t.state = .createStreams cookie → Step t .lock t.createStreams
  | startLoad {t} : t.pc = .loopTop → t.state = .running → t.oldState ≠ .running →
      Step t .lock { t with toTestController := t.broadcastToStreams .startLoad, oldState := t.state, pc := .selecting }
  | select {t} : t.pc = .loopTop →
      (t.state = .testStart ∨ (t.state = .running ∧ t.oldState = .running) ∨ t.state = .displayResults) →
      Step t .lock { t with oldState := t.state, pc := .selecting }
  | finish {t} : t.pc = .loopTop → t.state = .exchangeResults →
      Step t .lock ({ t with toTestController := { t.broadcastToStreams .terminate with streams := ∅ } }.collectNext
        t.streams)
  | store {t s} : t.pc = .storingState s → Step t .lock { t with state := s, pc := .loopTop }
  | intruded {t stream rest} : t.pc = .selecting → t.queue = .createStream stream :: rest →
      Step t .recv { t with queue := rest, pc := .returned none }
  | terminated {t id ref rest} : t.pc = .selecting → t.queue = .streamTerminated id :: rest →
      t.streams.lookup id = some ref →
      Step t .recv { t with queue := rest, streams := t.streams.erase id, pc := .joining id ref }
  | unknown {t id rest} : t.pc = .selecting → t.queue = .streamTerminated id :: rest → t.streams.lookup id = none →
      Step t .recv { t with queue := rest, pc := .loopTop }
  | told {t s} : t.pc = .selecting →
      Step t (.read (.ok (.setState s))) { t with received := t.received ++ [.ok (.setState s)], pc := .storingState s }
  | surprised {t m} : t.pc = .selecting → (∀ s, m ≠ .setState s) →
      Step t (.read (.ok m)) { t with received := t.received ++ [.ok m], pc := .loopTop }
  | failed {t e} : t.pc = .selecting →
      Step t (.read (.error e)) { t with received := t.received ++ [.error e], pc := .returned none }
  | readResults {t results remote} : t.pc = .readingResults results →
      Step t (.read (.ok (.sendResults remote)))
        { t with received := t.received ++ [.ok (.sendResults remote)], pc := .returned (some (results, remote)) }
  | readOther {t results r} : t.pc = .readingResults results → (∀ remote, r ≠ .ok (.sendResults remote)) →
      Step t (.read r) { t with received := t.received ++ [r], pc := .returned none }
  | joined {t id ref r} : t.pc = .joining id ref → t.taskResult ref = some r → r ≠ .panicked →
      Step t .join { t with toTestController := t.keepResult id r, pc := .loopTop }
  | joinFailed {t id ref} : t.pc = .joining id ref → t.taskResult ref = some .panicked →
      Step t .join { t with pc := .returned none }
  | collected {t id pending ref r} : t.pc = .collecting pending → pending.lookup id = some ref →
      t.taskResult ref = some r →
      Step t (.collect id true) ({ t with toTestController := t.keepResult id r }.collectNext (pending.erase id))
  | timedOut {t id pending ref} : t.pc = .collecting pending → pending.lookup id = some ref →
      t.taskResult ref = none → Step t (.collect id false) (t.collectNext (pending.erase id))
  | connected {t stream} : t.pc = .connecting →
      Step t (.connect (some stream)) { t with toTestController := t.createAndRegisterStreamWorker stream }.createStreams
  | denied {t} : t.pc = .connecting → Step t (.connect none) { t with pc := .returned none }
  | sentResults {t results} : t.pc = .sendingResults results →
      Step t (.write true) { t with sent := t.sent ++ [.sendResults results], pc := .readingResults results }
  | sendFailed {t results} : t.pc = .sendingResults results → Step t (.write false) { t with pc := .returned none }
  | worker {t i e c} : t.workerStep (!t.returned) (t.channelOpen i) i e = some c →
      Step t (.worker i e) { t with toTestController := c }

theorem lock_cases {t u : ClientTest} (h : t.step .lock = some u) : Step t .lock u := by
  simp only [step] at h
  split at h
  · rename_i hpc
    exact Option.some.inj h ▸ .start hpc
  · rename_i hpc
    have h := Option.some.inj h
    subst h
    unfold turn
    split
    · rename_i hs
      exact .create hpc hs
    · rename_i hs
      by_cases ho : t.oldState = .running
      · simpa [ho] using Step.select hpc (.inr (.inl ⟨hs, ho⟩))
      · simpa [ho] using Step.startLoad hpc hs ho
    · rename_i hs
      exact .finish hpc hs
    · refine .select hpc ?_
      cases hs : t.state with
      | testStart => exact .inl rfl
      | displayResults => exact .inr (.inr rfl)
      | _ => simp_all
  · rename_i hpc
    exact Option.some.inj h ▸ .store hpc
  · cases h

theorem read_cases {t u : ClientTest} {r : Except AnyError ServerMessage} (h : t.step (.read r) = some u) :
    Step t (.read r) u := by
  simp only [step] at h
  split at h
  · rename_i hpc
    have h := Option.some.inj h
    subst h
    cases r with
    | error e => exact .failed hpc
    | ok m =>
      cases m with
      | setState s => exact .told hpc
      | _ => exact .surprised hpc (by simp)
  · rename_i results hpc
    have h := Option.some.inj h
    subst h
    rcases r with e | (_ | _ | remote)
    · exact .readOther hpc (by simp)
    · exact .readOther hpc (by simp)
    · exact .readOther hpc (by simp)
    · exact .readResults hpc
  · cases h

theorem collect_cases {t u : ClientTest} {id : Nat} {joined : Bool} (h : t.step (.collect id joined) = some u) :
    Step t (.collect id joined) u := by
  simp only [step] at h
  split at h
  · rename_i pending hpc
    split at h
    · cases h
    · rename_i ref href
      split at h
      · rename_i r hr
        exact Option.some.inj h ▸ .collected hpc href hr
      · rename_i hr
        exact Option.some.inj h ▸ .timedOut hpc href hr
      · cases h
  · cases h

/-- An enabled event is one of the transitions. -/
theorem step_cases {t u : ClientTest} {e : ClientEvent} (h : t.step e = some u) : Step t e u := by
  cases e with
  | lock => exact lock_cases h
  | read r => exact read_cases h
  | collect id joined => exact collect_cases h
  | recv =>
    simp only [step] at h
    split at h
    · rename_i m rest hpc hq
      have h := Option.some.inj h
      subst h
      cases m with
      | createStream stream => exact .intruded hpc hq
      | streamTerminated id =>
        simp only [processInternalMessage]
        split
        · rename_i ref hl
          exact .terminated hpc hq hl
        · rename_i hl
          exact .unknown hpc hq hl
    · cases h
  | join =>
    simp only [step] at h
    split at h
    · rename_i id ref hpc
      split at h
      · cases h
      · rename_i hr
        exact Option.some.inj h ▸ .joinFailed hpc hr
      · rename_i r hne hr
        exact Option.some.inj h ▸ .joined hpc hr hne
    · cases h
  | connect stream =>
    simp only [step] at h
    split at h
    · rename_i hpc
      cases stream with
      | some stream => exact Option.some.inj h ▸ .connected hpc
      | none => exact Option.some.inj h ▸ .denied hpc
    · cases h
  | write ok =>
    simp only [step] at h
    split at h
    · rename_i results hpc
      cases ok with
      | true => exact Option.some.inj h ▸ .sentResults hpc
      | false => exact Option.some.inj h ▸ .sendFailed hpc
    · cases h
  | worker i e =>
    simp only [step, Option.map_eq_some_iff] at h
    obtain ⟨c, hc, rfl⟩ := h
    exact .worker hc

theorem workerStep_test {t : ClientTest} {alive o : Bool} {i : Nat} {e : WorkerEvent} {c : TestController}
    (h : t.workerStep alive o i e = some c) : c.toPerfTest = t.toPerfTest := by
  obtain ⟨-, -, -, -, -, ht, -⟩ := TestController.workerStep_spec h
  exact ht

theorem config_of_step {t u : ClientTest} {e : ClientEvent} (h : Step t e u) : u.config = t.config := by
  cases h with
  | worker hw => simp [workerStep_test hw]
  | _ => simp [PerfTest.config]

theorem returned_of_step {t u : ClientTest} {e : ClientEvent} (h : Step t e u) (hu : u.returned = false) :
    t.returned = false := by
  cases h <;> simp_all [returned]

/-- Only the end of a read adds to what was received. -/
theorem received_of_step {t u : ClientTest} {e : ClientEvent} (h : Step t e u) :
    u.received = t.received ∨ ∃ r, e = .read r ∧ u.received = t.received ++ [r] := by
  cases h <;> simp

theorem read_received {t u : ClientTest} {r : Except AnyError ServerMessage} (h : t.step (.read r) = some u) :
    u.received = t.received ++ [r] := by
  cases step_cases h <;> rfl

/-- A failed read ends the test. -/
theorem read_error {t u : ClientTest} {e : AnyError} (h : t.step (.read (.error e)) = some u) : u.returned = true := by
  cases step_cases h <;> rfl

end ClientTest

end Netperf
