import Netperf.Directions
import Netperf.Observations
/-!
# Room in the channels

Every channel of a test has the same small capacity, and every sender gives up
when it finds a channel full. What is in a controller's channel is backed by
connections it has not registered and by workers that have returned, and a
worker is sent two messages in its life. A test that needs no more streams than
a channel has places therefore loses no message at either end, unless a worker
ends before the load and its stream is made once more.
-/

namespace Netperf

open Maps Frames Runs Lists

/-- A running worker whose channel has room gets what is sent to it. -/
theorem Worker.trySend_mem {w : Worker} (m : WorkerMessage) (hd : w.isDone = false)
    (hi : w.inbox.length < internalProtBuffer) : m ∈ (w.trySend m).inbox := by
  simp [Worker.trySend, hd, Nat.not_le.2 hi]

namespace TestController
variable {c d : TestController} {alive o : Bool} {i n : Nat} {we : WorkerEvent}

/-- The number of workers whose `run_worker` has returned. -/
def finishedWorkers (c : TestController) : Nat := c.workers.countP Worker.returned

theorem broadcast_finished (c : TestController) (m : WorkerMessage) :
    (c.broadcastToStreams m).finishedWorkers = c.finishedWorkers := by
  have key : ∀ ws : List Worker, ws.countP Worker.returned =
      (ws.map Worker.stage).countP (fun x => x.2.2.2.returned) := by
    intro ws
    rw [List.countP_map]
    rfl
  unfold finishedWorkers
  rw [key, key, c.broadcast_stage]

/-- A notice comes from a worker that returns. -/
theorem finished_workerStep (h : c.workerStep alive o i we = some d) : d.workers.length = c.workers.length ∧
    d.queue.length + c.finishedWorkers ≤ c.queue.length + d.finishedWorkers := by
  obtain ⟨w, w', hg, hs, hcases⟩ := workerStep_cases h
  have hrun := Worker.not_returned_of_not_done (Worker.step_spec hs).2.2.2
  obtain ⟨hlt, rfl⟩ := List.getElem?_eq_some_iff.1 hg
  have hcount : (c.workers.set i w').countP Worker.returned =
      c.workers.countP Worker.returned + if w'.returned then 1 else 0 := by
    rw [List.countP_set hlt, hrun]
    rfl
  unfold finishedWorkers
  rcases hcases with ⟨hret, -, rfl⟩ | ⟨-, rfl⟩
  · simp only [hcount, hret, List.length_append, List.length_singleton, List.length_set, if_true]
    exact ⟨trivial, by omega⟩
  · simp only [hcount, List.length_set]
    exact ⟨trivial, by omega⟩

theorem finishedWorkers_lt {w : Worker} (hw : c.workers[i]? = some w) (hr : w.returned = false) :
    c.finishedWorkers < c.workers.length := by
  refine Nat.lt_of_le_of_ne List.countP_le_length (fun heq => ?_)
  have := List.countP_eq_length.1 heq w (List.mem_of_getElem? hw)
  rw [hr] at this
  cases this

/-- A broadcast adds one message at most. -/
theorem mailed_broadcast (h : ∀ w ∈ c.workers, w.inbox.length ≤ n) (m : WorkerMessage) :
    ∀ w ∈ (c.broadcastToStreams m).workers, w.inbox.length ≤ n + 1 := by
  intro w hw
  obtain ⟨i, hget⟩ := List.getElem?_of_mem hw
  obtain ⟨v, hv, rfl⟩ := c.broadcast_origin hget
  have hle := h v (List.mem_of_getElem? hv)
  unfold Worker.trySend
  split
  · split
    · omega
    · simpa using hle
  · omega

theorem mailed_workerStep (h : ∀ w ∈ c.workers, w.inbox.length ≤ n) (hs : c.workerStep alive o i we = some d) :
    ∀ w ∈ d.workers, w.inbox.length ≤ n := by
  obtain ⟨w, w', hg, hstep, hws, -⟩ := workerStep_spec hs
  intro v hv
  rw [hws] at hv
  rcases List.mem_or_eq_of_mem_set hv with hv | rfl
  · exact h v hv
  · exact (Worker.step_inbox_le hstep).trans (h w (List.mem_of_getElem? hg))

/-- Both kinds of message find room: a worker's notice where a step makes it
return, and a broadcast to every worker that still runs. -/
structure Spacious (c : TestController) (returns : Nat → WorkerEvent → Bool) : Prop where
  notice : ∀ i e m, returns i e = true → (c.trySend m).isSome = true
  broadcast : ∀ w ∈ c.workers, w.isDone = false → ∀ m, m ∈ (w.trySend m).inbox

/-- There is room where a channel that some worker still reports to is not full
and no worker was sent more than two messages. -/
theorem Spacious.of_le {o : Nat → Bool} (hq : ∀ (i : Nat) (w : Worker), c.workers[i]? = some w → w.returned = false →
    c.queue.length < internalProtBuffer) (hm : ∀ w ∈ c.workers, w.inbox.length ≤ 2) :
    Spacious c (fun i e => (c.workers[i]?).any (fun w => (w.step (o i) e).any Worker.returned)) := by
  refine ⟨fun i e m hret => ?_, fun w hw hd m => ?_⟩
  · simp only [Option.any_eq_true] at hret
    obtain ⟨w, hget, w', hs, -⟩ := hret
    have hlt := hq i w hget (Worker.not_returned_of_not_done (Worker.step_spec hs).2.2.2)
    simp [trySend, hlt]
  · have hle := hm w hw
    exact Worker.trySend_mem m hd (by simp [internalProtBuffer]; omega)

end TestController

namespace ServerTest
variable {t u : ServerTest} {e : ServerEvent} {cookie : String} {params : TestParameters}

/-! ## The controller's channel -/

/-- A message in the channel is a connection without a worker, or the notice of
a worker that has returned. -/
def Backed (t : ServerTest) : Prop := t.queue.length + t.workers.length ≤ t.connections.length + t.finishedWorkers

theorem backed_step (h : Step t e u) (hi : Backed t) : Backed u := by
  have hconn := connections_step h
  cases h with
  | worker hw =>
    obtain ⟨hlen, hback⟩ := TestController.finished_workerStep hw
    simp only [ServerEvent.offered, List.append_nil] at hconn
    unfold Backed at *
    rw [hconn]
    dsimp only
    omega
  | startLoad | finish =>
    have hlen : ∀ m, (t.broadcastToStreams m).workers.length = t.workers.length :=
      fun m => by simpa using congrArg List.length (t.broadcast_stage m)
    have hfin := t.broadcast_finished
    unfold TestController.finishedWorkers at hfin
    simp only [ServerEvent.offered, List.append_nil] at hconn
    unfold Backed at *
    rw [hconn]
    simpa [TestController.finishedWorkers, hfin, hlen] using hi
  | @accept s rest hpc hq =>
    simp only [ServerEvent.offered, List.append_nil] at hconn
    unfold Backed at *
    rw [hconn]
    simp [TestController.finishedWorkers, TestController.createAndRegisterStreamWorker, List.countP_append, hq,
      Worker.returned, WorkerPc.returned] at hi ⊢
    omega
  | terminated _ hq | unknown _ hq =>
    simp only [ServerEvent.offered, List.append_nil] at hconn
    unfold Backed at *
    rw [hconn]
    simp [TestController.finishedWorkers, hq] at hi ⊢
    omega
  | offer =>
    unfold Backed at *
    rw [hconn]
    simp [TestController.finishedWorkers, ServerEvent.offered] at hi ⊢
    omega
  | _ =>
    simp only [ServerEvent.offered, List.append_nil] at hconn
    unfold Backed at *
    rw [hconn]
    simpa [TestController.finishedWorkers] using hi

theorem backed_reach (h : Reach step (new cookie params) t) : Backed t :=
  h.inv Backed (by simp [Backed, connections, TestController.finishedWorkers, new, TestController.new])
    (fun _ _ _ hi hs => backed_step (step_cases hs) hi)

/-- With a worker still running, not every connection has its message in the
channel. -/
theorem Backed.queue_lt (h : Backed t) {i : Nat} {w : Worker} (hw : t.workers[i]? = some w) (hr : w.returned = false) :
    t.queue.length < t.connections.length := by
  have hlt := TestController.finishedWorkers_lt hw hr
  unfold Backed at h
  omega

theorem Backed.queue_le (h : Backed t) : t.queue.length ≤ t.connections.length := by
  have hle : t.finishedWorkers ≤ t.workers.length := List.countP_le_length
  unfold Backed at h
  omega

/-! ## The workers' channels -/

/-- How many broadcasts the controller has made: `StartLoad`, and `Terminate`
when it leaves its loop. -/
def broadcasts (t : ServerTest) : Nat :=
  match t.pc with
  | .collecting _ | .readingResults _ | .sendingResults _ _ | .returned _ => 2
  | _ => if t.oldState = .running then 1 else 0

/-- No worker has more messages than were broadcast. -/
def Mailed (t : ServerTest) : Prop := ∀ w ∈ t.workers, w.inbox.length ≤ t.broadcasts

theorem broadcasts_le : t.broadcasts ≤ 2 := by
  unfold broadcasts
  split <;> (try split) <;> omega

@[simp] theorem collectNext_broadcasts (pending : Map StreamWorkerRef) : (t.collectNext pending).broadcasts = 2 := by
  by_cases h : len pending = 0 <;> simp [broadcasts, collectNext, h]

@[simp] theorem acceptStream_broadcasts (n : Nat) :
    (t.acceptStream n).broadcasts = if t.oldState = .running then 1 else 0 := by
  by_cases h : len (t.createAndRegisterStreamWorker n).streams = t.totalNeededStreams <;>
    simp [broadcasts, acceptStream, h]

@[simp] theorem afterTermination_broadcasts :
    t.afterTermination.broadcasts = if t.oldState = .running then 1 else 0 := by
  by_cases h : len t.streams = 0 <;> simp [broadcasts, afterTermination, h]

theorem Mailed.same (hi : Mailed t) (hw : u.workers = t.workers) (hb : t.broadcasts ≤ u.broadcasts) : Mailed u := by
  intro w h
  exact (hi w (hw ▸ h)).trans hb

theorem mailed_step (h : Step t e u) (hp : Phase t) (hi : Mailed t) : Mailed u := by
  cases h with
  | startLoad _ hpc _ ho =>
    have hzero : ∀ w ∈ t.workers, w.inbox.length ≤ 0 := by simpa [Mailed, broadcasts, hpc, ho] using hi
    intro w hw
    simpa [broadcasts, *] using TestController.mailed_broadcast hzero .startLoad w hw
  | finish _ hpc hs =>
    have hone : ∀ w ∈ t.workers, w.inbox.length ≤ 1 := by
      intro w hw
      have hle := hi w hw
      simp only [broadcasts, hpc] at hle
      split at hle <;> omega
    intro w hw
    simpa using TestController.mailed_broadcast hone .terminate w hw
  | worker hw => exact TestController.mailed_workerStep hi hw
  | accept hpc hq =>
    intro w hw
    rcases List.mem_append.1 hw with hw | hw
    · rw [acceptStream_broadcasts]
      simpa [broadcasts, hpc] using hi w hw
    · simp [List.mem_singleton.1 hw]
  | wait _ hpc hs =>
    have hsame : t.oldState = .running ↔ t.state = .running := by
      rcases hp.waits hpc hs with ⟨⟨c, hs⟩, ho⟩ | ⟨hs, ho⟩ <;> simp [hs, ho]
    exact hi.same rfl (by simp [broadcasts, hpc, hsame])
  | start _ hpc =>
    simp only [Phase, hpc] at hp
    exact hi.same rfl (by simp [broadcasts, hpc, hp.1, hp.2])
  | unknown hpc => exact hi.same rfl (by rw [afterTermination_broadcasts]; simp [broadcasts, hpc])
  | joined hpc => exact hi.same (by simp) (by rw [afterTermination_broadcasts]; simp [broadcasts, hpc])
  | collected | timedOut => exact hi.same (by simp) (by rw [collectNext_broadcasts]; exact broadcasts_le)
  | writeFailed | sendFailed | sentResults | readFailed | joinFailed | readResults | readOther =>
    exact hi.same rfl broadcasts_le
  | announce _ hpc | store _ hpc | wrote hpc | writeIgnored hpc | terminated hpc =>
    exact hi.same rfl (by simp [broadcasts, hpc])
  | guard | unguard | offer | vanish => exact hi.same rfl le_rfl

/-- A worker's channel holds two messages at most, so a worker that still runs
gets every broadcast. -/
theorem mailed_reach (h : Reach step (new cookie params) t) : ∀ w ∈ t.workers, w.inbox.length ≤ 2 := by
  have main : Phase t ∧ Mailed t := by
    refine h.inv (fun t => Phase t ∧ Mailed t) ⟨⟨rfl, rfl⟩, by simp [Mailed, new, TestController.new]⟩ ?_
    rintro t e u ⟨hp, hi⟩ hs
    exact ⟨phase_step (step_cases hs) hp, mailed_step (step_cases hs) hp hi⟩
  exact fun w hw => (main.2 w hw).trans broadcasts_le

end ServerTest

/-! ## The client -/

namespace ClientTest
variable {t u : ClientTest} {e : ClientEvent} {cookie : String} {params : TestParameters}

/-- Some step of worker `i` makes `run_worker` return. -/
def returns (t : ClientTest) (i : Nat) (e : WorkerEvent) : Bool :=
  (t.workers[i]?).any (fun w => (w.step (t.channelOpen i) e).any Worker.returned)

/-- A message in the client's channel is the notice of a worker that has
returned. -/
def Backed (t : ClientTest) : Prop := t.queue.length ≤ t.finishedWorkers

theorem backed_step (h : Step t e u) (hi : Backed t) : Backed u := by
  cases h with
  | worker hw =>
    obtain ⟨-, hback⟩ := TestController.finished_workerStep hw
    unfold Backed at *
    dsimp only
    omega
  | startLoad | finish =>
    have hfin := t.broadcast_finished
    unfold TestController.finishedWorkers at hfin
    unfold Backed at *
    simpa [TestController.finishedWorkers, hfin] using hi
  | connected =>
    unfold Backed at *
    simp [TestController.finishedWorkers, TestController.createAndRegisterStreamWorker, List.countP_append] at hi ⊢
    omega
  | terminated _ hq | unknown _ hq | intruded _ hq =>
    unfold Backed at *
    simp [TestController.finishedWorkers, hq] at hi ⊢
    omega
  | _ =>
    unfold Backed at *
    simpa [TestController.finishedWorkers] using hi

theorem backed_reach (h : Reach step (new cookie params) t) : Backed t :=
  h.inv Backed (by simp [Backed, new, TestController.new]) (fun _ _ _ hi hs => backed_step (step_cases hs) hi)

/-- How many broadcasts the client's controller has made, or two. -/
def broadcasts (t : ClientTest) : Nat :=
  match t.pc with
  | .collecting _ | .sendingResults _ | .readingResults _ | .returned _ => 2
  | _ => if t.oldState = .running then 1 else 0

/-- No worker has more messages than were broadcast. -/
structure Mailed (t : ClientTest) : Prop where
  begins : t.pc = .start → t.oldState ≠ .running
  inboxes : ∀ w ∈ t.workers, w.inbox.length ≤ t.broadcasts

theorem broadcasts_le : t.broadcasts ≤ 2 := by
  unfold broadcasts
  split <;> (try split) <;> omega

@[simp] theorem collectNext_broadcasts (pending : Map StreamWorkerRef) : (t.collectNext pending).broadcasts = 2 := by
  by_cases h : len pending = 0 <;> simp [broadcasts, collectNext, h]

theorem collectNext_pc_ne_start (pending : Map StreamWorkerRef) : (t.collectNext pending).pc ≠ .start := by
  by_cases h : len pending = 0 <;> simp [collectNext, h]

theorem createStreams_pc_ne_start : t.createStreams.pc ≠ .start := by
  by_cases h : len t.streams < t.totalNeededStreams <;> simp [createStreams, h]

theorem Mailed.same (hi : Mailed t) (hpc : u.pc ≠ .start) (hw : u.workers = t.workers)
    (hb : t.broadcasts ≤ u.broadcasts) : Mailed u :=
  ⟨fun h => absurd h hpc, fun w h => (hi.inboxes w (hw ▸ h)).trans hb⟩

/-- Before the load nothing was sent to the workers. -/
theorem Mailed.early (hi : Mailed t) (ho : t.oldState ≠ .running) (hpc : t.pc = .loopTop ∨ t.pc = .connecting) :
    ∀ w ∈ t.workers, w.inbox.length ≤ 0 := by
  have hzero : t.broadcasts = 0 := by
    rcases hpc with hpc | hpc <;> simp [broadcasts, hpc, ho]
  exact hzero ▸ hi.inboxes

theorem mailed_step (h : Step t e u) (hg : Gathering cookie t) (hi : Mailed t) : Mailed u := by
  cases h with
  | startLoad hpc _ ho =>
    refine ⟨by simp, fun w hw => ?_⟩
    simpa [broadcasts, *] using TestController.mailed_broadcast (hi.early ho (.inl hpc)) .startLoad w hw
  | finish hpc hs =>
    have hone : ∀ w ∈ t.workers, w.inbox.length ≤ 1 := by
      intro w hw
      have hle := hi.inboxes w hw
      simp only [broadcasts, hpc] at hle
      split at hle <;> omega
    refine ⟨fun h => absurd h (collectNext_pc_ne_start _), fun w hw => ?_⟩
    simpa using TestController.mailed_broadcast hone .terminate w hw
  | worker hw => exact ⟨hi.begins, TestController.mailed_workerStep hi.inboxes hw⟩
  | @create c hpc hs =>
    obtain ⟨-, ho, -⟩ := hg.early (by simp [returned, hpc]) (by simp [nextState, hpc, hs, State.gathering])
    refine ⟨fun h => absurd h createStreams_pc_ne_start, fun w hw => ?_⟩
    exact (hi.early ho (.inl hpc) w hw).trans (Nat.zero_le _)
  | connected hpc =>
    obtain ⟨-, ho, -⟩ := hg.early (returned_of_connecting hpc) (hg.connecting hpc).1
    refine ⟨fun h => absurd h createStreams_pc_ne_start, fun w hw => ?_⟩
    rcases List.mem_append.1 hw with hw | hw
    · exact (hi.early ho (.inr hpc) w hw).trans (Nat.zero_le _)
    · simp [List.mem_singleton.1 hw]
  | select hpc hs =>
    -- the load goes on, or the client has just begun
    have hold : t.oldState = .running → t.state = .running := by
      intro ho
      rcases hs with hs | ⟨hs, -⟩ | hs
      · exact absurd ho (hg.early (by simp [returned, hpc]) (by simp [nextState, hpc, hs, State.gathering])).2.1
      · exact hs
      · have hscript := hg.script (by simp [returned, hpc])
        simp only [nextState, hpc, hs] at hscript
        exact absurd rfl hscript.not_displayResults
    refine hi.same (by simp) rfl ?_
    simp only [broadcasts, hpc]
    split
    · rename_i ho
      simp [hold ho]
    · exact Nat.zero_le _
  | start hpc => exact hi.same (by simp) rfl (by simp [broadcasts, hpc, hi.begins hpc])
  | collected | timedOut =>
    exact hi.same (collectNext_pc_ne_start _) (by simp) (by rw [collectNext_broadcasts]; exact broadcasts_le)
  | joined hpc => exact hi.same (by simp) (by simp) (by simp [broadcasts, hpc])
  | store hpc | terminated hpc | unknown hpc | told hpc | surprised hpc =>
    exact hi.same (by simp) rfl (by simp [broadcasts, hpc])
  | _ => exact hi.same (by simp) rfl broadcasts_le

end ClientTest

/-! ## Both ends -/

namespace Session
variable {decode : List UInt8 → Option ClientEnvelope} {s : Session} {cookie : String} {params : TestParameters}
  {t : ServerTest}

/-- Whoever sends to a task of the test finds room: the accept loop with a
connection, and at each end a worker with its notice and the controller with a
broadcast. -/
structure NothingLost (s : Session) (t : ServerTest) : Prop where
  connection : ∀ c, s.server.pc = .handing c s.test → t.returned = false → (t.trySend (.createStream c)).isSome = true
  server : t.Spacious t.returns
  client : s.client.Spacious s.client.returns

theorem Settled.needed (hi : Settled decode cookie params s t) :
    s.client.totalNeededStreams = (ServerTest.new cookie params).totalNeededStreams := by
  rw [← hi.total]
  exact PerfTest.totalNeededStreams_config (Pair.config_reach hi.pair).1

theorem Settled.connection_room (hi : Settled decode cookie params s t)
    (hn : (ServerTest.new cookie params).totalNeededStreams ≤ internalProtBuffer) {c : Nat}
    (hpc : s.server.pc = .handing c s.test) (hr : t.returned = false) :
    t.queue.length < internalProtBuffer := by
  obtain ⟨_, _, hreach⟩ := Server.test_reach hi.server _ t hi.test
  have hq := (ServerTest.backed_reach hreach).queue_le
  have hd := hi.dialed_le
  rw [hi.needed] at hd
  -- the connection at hand is one of those the client may make
  have hall := hi.aligned.passed hr c s.test (by simp [hpc, AcceptPc.passed])
  have hlen := congrArg List.length hall
  simp only [List.length_append, List.length_singleton] at hlen
  omega

theorem Settled.server_spacious (hi : Settled decode cookie params s t)
    (hn : (ServerTest.new cookie params).totalNeededStreams ≤ internalProtBuffer) :
    t.Spacious t.returns := by
  obtain ⟨_, _, hreach⟩ := Server.test_reach hi.server _ t hi.test
  have hd := hi.aligned.handed.length_le.trans hi.dialed_le
  rw [hi.needed] at hd
  apply TestController.Spacious.of_le
  · intro i w hget hrun
    have hq := (ServerTest.backed_reach hreach).queue_lt hget hrun
    omega
  · exact ServerTest.mailed_reach hreach

theorem Settled.client_spacious (hi : Settled decode cookie params s t)
    (hn : (ServerTest.new cookie params).totalNeededStreams ≤ internalProtBuffer)
    (hm : s.client.Mailed) : s.client.Spacious s.client.returns := by
  have hbacked : s.client.Backed := ClientTest.backed_reach (Pair.client_reach hi.pair)
  have hb := hi.gathering.bounded
  rw [hi.needed] at hb
  apply TestController.Spacious.of_le
  · intro i w hget hrun
    have hlt := TestController.finishedWorkers_lt hget hrun
    unfold ClientTest.Backed at hbacked
    omega
  · exact fun w hw => (hm.inboxes w hw).trans ClientTest.broadcasts_le

/-- The client's workers over a whole session. -/
theorem mailed_run {k : Nat} {w : Server} {es : List SessionEvent} (hw : Created decode cookie params k w)
    (h : Run (step decode) (Honest decode cookie) (new w k cookie params) es s) : s.client.Mailed := by
  induction h with
  | nil => exact ⟨by simp [new, ClientTest.new], by simp [new, ClientTest.new, TestController.new]⟩
  | snoc hrun _ hs ih =>
    obtain ⟨-, _, hi⟩ := settled_run hw hrun
    cases step_cases hs with
    | client _ _ hc | connected _ _ hc => exact ClientTest.mailed_step (ClientTest.step_cases hc) hi.gathering ih
    | _ => exact ih

/-- A test that needs no more streams than a channel has places loses no message
at either end. No worker ends before its controller has started the load; third
parties may do what they like, and anything else may fail. -/
theorem nothing_lost {k : Nat} {w : Server} {es : List SessionEvent}
    (hn : (ServerTest.new cookie params).totalNeededStreams ≤ internalProtBuffer)
    (hw : Created decode cookie params k w)
    (h : Run (step decode) (Honest decode cookie) (new w k cookie params) es s) (ht : s.server.tests[k]? = some t) :
    NothingLost s t := by
  have hm := mailed_run hw h
  obtain ⟨rfl, t₀, hi⟩ := settled_run hw h
  obtain rfl : t = t₀ := Option.some.inj (ht.symm.trans hi.test)
  refine ⟨fun c hpc hr => ?_, hi.server_spacious hn, hi.client_spacious hn hm⟩
  simp [TestController.trySend, hi.connection_room hn hpc hr]

/-- One stream, past somebody with another cookie. -/
theorem nothing_lost_one : ∃ w es s t, Created Server.startDecode "c" (uploadParams 1) 0 w ∧
    Run (step Server.startDecode) (Honest Server.startDecode "c") (new w 0 "c" (uploadParams 1)) es s ∧
    s.server.tests[0]? = some t ∧ (t.workers.length = 1 ∧ s.client.workers.length = 1) ∧ NothingLost s t := by
  obtain ⟨w, s, hw, hrun, hp⟩ := exists_session Server.startDecode (Honest Server.startDecode "c")
    (Server.peer Server.startEnvelopes false) "c" (uploadParams 1) streamRun
    (fun s => (s.server.tests[0]?).any (fun t => t.workers.length = 1 ∧ s.client.workers.length = 1)) (by decide +kernel)
  simp only [Option.any_eq_true, decide_eq_true_eq] at hp
  obtain ⟨t, ht, hlen⟩ := hp
  exact ⟨w, _, s, t, hw, hrun, ht, hlen, nothing_lost (by decide) hw hrun ht⟩

end Session

end Netperf
