import Mathlib.Algebra.GroupWithZero.Nat
import Netperf.Completion
import Netperf.Lib.Efforts
/-!
# The effort of a session

A session cannot go on for ever. Each of its steps is paid for: a turn of a
controller by the message that woke it up, a message by the worker that
returned, the connection that arrived or the state that was announced, and a
connection by a stream that the client does not have to make any more. `n` is
the number of streams the test needs.
-/

namespace Netperf

open Maps Frames Runs Lists

/-! ## Prices -/

namespace Effort

/-- A turn of the client's loop, with its broadcast and the final drain. -/
def clientTurn (n : Nat) : Nat := 2 * n + 2

/-- A message of the server that the client has not read. -/
def message (n : Nat) : Nat := clientTurn n + 2

/-- A turn of the server's loop, with its broadcast, the final drain and the
results it writes. -/
def serverTurn (n : Nat) : Nat := 2 * n + message n + 3

/-- The announcement of a state, its store, and the turn that follows. -/
def announcement (n : Nat) : Nat := serverTurn n + message n + 2

/-- A `StreamTerminated` in a controller's channel. -/
def notice (n : Nat) : Nat := announcement n + 2

/-- A `CreateStream` in the channel of the server's controller. -/
def connection (n : Nat) : Nat := notice n + announcement n + 5

/-- A stream that the client still has to make. -/
def stream (n : Nat) : Nat := notice n + connection n + 11

end Effort

open Effort

/-! ## Workers and channels -/

/-- What is left of `run_worker`, and the notice it leaves behind. -/
def WorkerPc.effort (n : Nat) : WorkerPc → Nat
  | .spawned => notice n + 4
  | .waiting => notice n + 3
  | .loading => notice n + 2
  | .draining _ => notice n + 1
  | .done _ => 0

def Worker.effort (n : Nat) (w : Worker) : Nat := w.pc.effort n + w.inbox.length

theorem WorkerPc.effort_pos {n : Nat} {pc : WorkerPc} (h : pc.isDone = false) : notice n + 1 ≤ pc.effort n := by
  cases pc with
  | done => cases h
  | _ => simp [effort]

/-- A worker takes a message, or goes on in its program. -/
theorem Worker.effort_step {n : Nat} {w w' : Worker} {o : Bool} {e : WorkerEvent} (h : w.step o e = some w') :
    w'.effort n + (if w'.isDone then notice n else 0) + 1 ≤ w.effort n := by
  have hinbox := Worker.step_inbox_le h
  by_cases hd : w'.isDone = true
  · -- it was running before
    have hpos := WorkerPc.effort_pos (n := n) (Worker.step_spec h).2.2.2
    have hzero : w'.pc.effort n = 0 := by
      unfold Worker.isDone WorkerPc.isDone at hd
      split at hd
      · rename_i hpc
        simp [hpc, WorkerPc.effort]
      · cases hd
    simp only [effort, hd, hzero, if_true]
    omega
  · simp only [hd, if_false, Bool.false_eq_true]
    cases e <;> simp only [Worker.step] at h <;> (repeat' split at h) <;>
      simp_all [effort, WorkerPc.effort] <;> subst h <;> simp_all [Worker.isDone, WorkerPc.isDone]
    all_goals omega

def ControllerMessage.effort (n : Nat) : ControllerMessage → Nat
  | .createStream _ => connection n
  | .streamTerminated _ => notice n

/-- What the tasks of a test and the messages in its channel still cost. -/
def TestController.effort (n : Nat) (c : TestController) : Nat :=
  (c.queue.map (ControllerMessage.effort n)).sum + (c.workers.map (Worker.effort n)).sum

namespace TestController
variable {n : Nat} {c d : TestController}

theorem effort_workerStep {alive o : Bool} {i : Nat} {e : WorkerEvent} (h : c.workerStep alive o i e = some d) :
    d.effort n + 1 ≤ c.effort n := by
  obtain ⟨w, w', hw, hs, hcases⟩ := workerStep_cases h
  have hcost := Worker.effort_step (n := n) hs
  have hset := Sums.sum_map_set (f := Worker.effort n) (b := w') hw
  rcases hcases with ⟨hr, -, rfl⟩ | ⟨-, rfl⟩
  · have hd : w'.isDone = true := by
      by_contra hd
      rw [Worker.not_returned_of_not_done (by simpa using hd)] at hr
      cases hr
    simp only [hd, if_true] at hcost
    simp only [effort, List.map_append, List.sum_append, List.map_cons, List.map_nil, List.sum_cons, List.sum_nil,
      ControllerMessage.effort]
    omega
  · simp only [effort]
    split at hcost <;> omega

theorem effort_broadcast (m : WorkerMessage) : (c.broadcastToStreams m).effort n ≤ c.effort n + c.workers.length := by
  have hmail : ((c.broadcastToStreams m).workers.map (Worker.effort n)).sum ≤
      (c.workers.map (Worker.effort n)).sum + c.workers.length := by
    apply Sums.sum_map_mapIdx_le
    intro i w
    unfold Worker.trySend Worker.effort
    split
    · split
      · omega
      · simp only [List.length_append, List.length_singleton]
        omega
    · omega
  simp only [effort, broadcastToStreams_queue]
  omega

theorem effort_register (s : Nat) : (c.createAndRegisterStreamWorker s).effort n = c.effort n + notice n + 4 := by
  simp only [effort, createAndRegisterStreamWorker, Worker.effort, WorkerPc.effort, List.map_append, List.sum_append,
    List.map_cons, List.map_nil, List.sum_cons, List.sum_nil, List.length_nil]
  omega

@[simp] theorem effort_keepResult (id : Nat) (r : TaskResult) : (c.keepResult id r).effort n = c.effort n := by
  simp [effort]

/-- The map never has more entries than there are workers. -/
theorem Numbered.len_le (h : Numbered c) : len c.streams ≤ c.workers.length := by
  apply len_le_of_places (f := StreamWorkerRef.task)
  · intro id ref hl
    obtain ⟨hid, hlt⟩ := h.refs id ref hl
    omega
  · intro id id' ref ref' hl hl' he
    rw [← (h.refs id ref hl).1, he, (h.refs id' ref' hl').1]

end TestController

/-! ## The server -/

def ServerPc.effort (n : Nat) (s : State) : ServerPc → Nat
  | .start => announcement n + 2
  | .loopTop => if s = .testStart then announcement n + 1 else serverTurn n
  | .waiting => 0
  | .joining _ _ => announcement n + 1
  | .writingState _ _ => announcement n
  | .storingState _ => serverTurn n + 1
  | .collecting pending => message n + 2 + len pending
  | .readingResults _ => message n + 2
  | .sendingResults _ _ => message n + 1
  | .returned _ => 0

namespace ServerTest
variable {t u : ServerTest} {e : ServerEvent} {n : Nat}

/-- What the test still costs on the server, and what its announcements cost the
client. -/
def effort (n : Nat) (t : ServerTest) : Nat :=
  t.pc.effort n t.state + t.toTestController.effort n + message n * t.sent.length

theorem Serving.not_testStart {cookie : String} {s : State} (h : Serving cookie s) : s ≠ .testStart := by
  rcases h with rfl | rfl <;> simp

theorem collectNext_effort (pending : Map StreamWorkerRef) :
    (t.collectNext pending).effort n ≤ message n + 2 + len pending + t.toTestController.effort n +
      message n * t.sent.length := by
  by_cases h : len pending = 0 <;> simp [effort, collectNext, h, ServerPc.effort]

theorem afterTermination_effort (hs : Serving t.cookie t.state) :
    t.afterTermination.effort n ≤ announcement n + t.toTestController.effort n + message n * t.sent.length := by
  have hturn : serverTurn n ≤ announcement n := by
    unfold announcement
    omega
  by_cases h : len t.streams = 0 <;> simp [effort, afterTermination, h, ServerPc.effort, hs.not_testStart, hturn]

theorem acceptStream_effort (hs : Serving t.cookie t.state) (s : Nat) :
    (t.acceptStream s).effort n ≤ announcement n + (t.toTestController.effort n + notice n + 4) +
      message n * t.sent.length := by
  have hturn : serverTurn n ≤ announcement n := by
    unfold announcement
    omega
  have hreg := TestController.effort_register (n := n) (c := t.toTestController) s
  by_cases h : len (t.createAndRegisterStreamWorker s).streams = t.totalNeededStreams <;>
    simp [effort, acceptStream, h, ServerPc.effort, hreg, hs.not_testStart, hturn]

/-- Every step of the test itself is paid for. -/
theorem effort_step (h : Step t e u) (hp : Phase t) (hw : t.workers.length ≤ n) (hl : len t.streams ≤ n)
    (he : e.ofAcceptLoop = false) (hv : e ≠ .vanish) : u.effort n + 1 ≤ t.effort n := by
  cases h with
  | start _ hpc =>
    simp only [Phase, hpc] at hp
    simp only [effort, hpc, ServerPc.effort, if_pos hp.1]
    omega
  | announce _ hpc hs =>
    simp only [effort, hpc, ServerPc.effort, if_pos hs]
    omega
  | startLoad _ hpc hs =>
    have hcast := TestController.effort_broadcast (n := n) (c := t.toTestController) .startLoad
    have hne : t.state ≠ .testStart := by simp [hs]
    simp only [effort, hpc, ServerPc.effort, if_neg hne, serverTurn]
    omega
  | wait _ hpc hs =>
    have hne : t.state ≠ .testStart := by
      rcases hs with ⟨c, hs⟩ | ⟨hs, -⟩ | hs <;> simp [hs]
    simp only [effort, hpc, ServerPc.effort, if_neg hne, serverTurn]
    omega
  | finish _ hpc hs =>
    have hcast := TestController.effort_broadcast (n := n) (c := t.toTestController) .terminate
    have hne : t.state ≠ .testStart := by simp [hs]
    refine Nat.le_trans (Nat.add_le_add_right (collectNext_effort _) 1) ?_
    simp only [effort, hpc, ServerPc.effort, if_neg hne, serverTurn, TestController.effort] at hcast ⊢
    omega
  | store _ hpc =>
    simp only [Phase, hpc] at hp
    simp only [effort, hpc, ServerPc.effort, if_neg hp.2.not_testStart.1, TestController.effort]
    omega
  | wrote hpc =>
    simp only [effort, hpc, ServerPc.effort, announcement, List.length_append, List.length_singleton, Nat.mul_add]
    omega
  | writeIgnored hpc =>
    simp only [Phase, hpc] at hp
    have hne := (hp.2.1.serving (hp.2.2.1 trivial)).not_testStart
    simp only [effort, hpc, ServerPc.effort, announcement, if_neg hne]
    omega
  | sentResults hpc =>
    simp only [effort, hpc, ServerPc.effort, List.length_append, List.length_singleton, Nat.mul_add]
    omega
  | @accept s rest hpc hq =>
    simp only [Phase, hpc] at hp
    have hle := acceptStream_effort (n := n)
      (t := { t with queue := rest, handled := t.handled ++ [ControllerMessage.createStream s] }) hp.2 s
    refine Nat.le_trans (Nat.add_le_add_right hle 1) ?_
    simp only [effort, hpc, ServerPc.effort, TestController.effort, hq, List.map_cons, List.sum_cons,
      ControllerMessage.effort, connection]
    omega
  | terminated hpc hq =>
    simp only [effort, hpc, ServerPc.effort, TestController.effort, hq, List.map_cons, List.sum_cons,
      ControllerMessage.effort, notice]
    omega
  | @unknown id rest hpc hq =>
    simp only [Phase, hpc] at hp
    have hle := afterTermination_effort (n := n)
      (t := { t with queue := rest, handled := t.handled ++ [ControllerMessage.streamTerminated id] }) hp.2
    refine Nat.le_trans (Nat.add_le_add_right hle 1) ?_
    simp only [effort, hpc, ServerPc.effort, TestController.effort, hq, List.map_cons, List.sum_cons,
      ControllerMessage.effort, notice]
    omega
  | joined hpc =>
    simp only [Phase, hpc] at hp
    refine Nat.le_trans (Nat.add_le_add_right (afterTermination_effort (by simpa using hp.2)) 1) ?_
    simp only [effort, hpc, ServerPc.effort, TestController.effort_keepResult]
    omega
  | collected hpc hlook =>
    have hlen := len_erase hlook
    refine Nat.le_trans (Nat.add_le_add_right (collectNext_effort _) 1) ?_
    simp only [effort, hpc, ServerPc.effort, TestController.effort_keepResult]
    omega
  | timedOut hpc hlook =>
    have hlen := len_erase hlook
    refine Nat.le_trans (Nat.add_le_add_right (collectNext_effort _) 1) ?_
    simp only [effort, hpc, ServerPc.effort]
    omega
  | worker hw' =>
    have hcost := TestController.effort_workerStep (n := n) hw'
    simp only [effort, workerStep_test hw']
    omega
  | vanish => exact absurd rfl hv
  | guard | unguard | offer => cases he
  | writeFailed hpc =>
    simp only [effort, hpc, ServerPc.effort, announcement]
    omega
  | sendFailed hpc | joinFailed hpc | readFailed hpc | readResults hpc | readOther hpc =>
    simp only [effort, hpc, ServerPc.effort]
    omega

end ServerTest

/-! ## The client -/

def ClientPc.effort (n : Nat) : ClientPc → Nat
  | .start | .joining _ _ | .storingState _ => clientTurn n + 1
  | .loopTop => clientTurn n
  | .selecting | .readingResults _ | .returned _ => 0
  | .connecting | .sendingResults _ => 1
  | .collecting pending => len pending + 1

/-- What the end of a connection pays for the client's new worker. -/
def ClientEvent.granted (n : Nat) : ClientEvent → Nat
  | .connect (some _) => notice n + 5
  | _ => 0

namespace ClientTest
variable {t u : ClientTest} {e : ClientEvent} {n : Nat}

def effort (n : Nat) (t : ClientTest) : Nat := t.pc.effort n + t.toTestController.effort n

theorem collectNext_effort (pending : Map StreamWorkerRef) :
    (t.collectNext pending).effort n ≤ len pending + 1 + t.toTestController.effort n := by
  by_cases h : len pending = 0 <;> simp [effort, collectNext, h, ClientPc.effort]

theorem createStreams_effort : t.createStreams.effort n ≤ t.toTestController.effort n + 1 := by
  unfold effort createStreams
  dsimp only
  split
  · simp only [ClientPc.effort]
    omega
  · simp only [ClientPc.effort]
    omega

/-- What the client reads is paid for by the messages, and its streams are paid
for where they are made. -/
theorem effort_step (h : Step t e u) (hw : t.workers.length ≤ n) (hl : len t.streams ≤ n)
    (he : ∀ err, e ≠ .read (.error err)) : u.effort n + message n * t.heard.length + 1 ≤
      t.effort n + message n * u.heard.length + e.granted n := by
  have hquiet : (∀ m, e ≠ .read (.ok m)) → u.heard = t.heard := by
    intro hne
    rcases heard_of_step h with hr | ⟨m, he, -⟩
    · exact hr
    · exact absurd he (hne m)
  have hread : ∀ m, message n * (t.heard ++ [m]).length = message n * t.heard.length + (clientTurn n + 2) := by
    intro m
    rw [List.length_append, List.length_singleton, Nat.mul_add, Nat.mul_one]
    rfl
  cases h with
  | told hpc | surprised hpc | readResults hpc =>
    rw [heard_read, hread]
    simp only [effort, hpc, ClientPc.effort]
    omega
  | @readOther _ r hpc =>
    cases r with
    | error => exact absurd rfl (he _)
    | ok m =>
      rw [heard_read, hread]
      simp only [effort, hpc, ClientPc.effort]
      omega
  | startLoad hpc =>
    have hcast := TestController.effort_broadcast (n := n) (c := t.toTestController) .startLoad
    rw [hquiet (by simp)]
    simp only [effort, hpc, ClientPc.effort, clientTurn]
    omega
  | finish hpc =>
    have hcast := TestController.effort_broadcast (n := n) (c := t.toTestController) .terminate
    have hle := collectNext_effort (n := n)
      (t := { t with toTestController := { t.broadcastToStreams .terminate with streams := ∅ } }) t.streams
    rw [hquiet (by simp)]
    refine Nat.le_trans (Nat.add_le_add_right (Nat.add_le_add_right hle _) 1) ?_
    simp only [effort, hpc, ClientPc.effort, clientTurn, TestController.effort] at hcast ⊢
    omega
  | create hpc =>
    rw [hquiet (by simp)]
    refine Nat.le_trans (Nat.add_le_add_right (Nat.add_le_add_right createStreams_effort _) 1) ?_
    simp only [effort, hpc, ClientPc.effort, clientTurn]
    omega
  | @connected stream hpc =>
    have hreg := TestController.effort_register (n := n) (c := t.toTestController) stream
    rw [hquiet (by simp)]
    refine Nat.le_trans (Nat.add_le_add_right (Nat.add_le_add_right createStreams_effort _) 1) ?_
    simp only [effort, hpc, ClientPc.effort, ClientEvent.granted]
    omega
  | collected hpc hlook =>
    have hlen := len_erase hlook
    rw [hquiet (by simp)]
    refine Nat.le_trans (Nat.add_le_add_right (Nat.add_le_add_right (collectNext_effort _) _) 1) ?_
    simp only [effort, hpc, ClientPc.effort, TestController.effort_keepResult]
    omega
  | timedOut hpc hlook =>
    have hlen := len_erase hlook
    rw [hquiet (by simp)]
    refine Nat.le_trans (Nat.add_le_add_right (Nat.add_le_add_right (collectNext_effort _) _) 1) ?_
    simp only [effort, hpc, ClientPc.effort]
    omega
  | intruded hpc hq =>
    rw [hquiet (by simp)]
    simp only [effort, hpc, ClientPc.effort, TestController.effort, hq, List.map_cons, List.sum_cons,
      ControllerMessage.effort, connection]
    omega
  | terminated hpc hq | unknown hpc hq =>
    rw [hquiet (by simp)]
    simp only [effort, hpc, ClientPc.effort, TestController.effort, hq, List.map_cons, List.sum_cons,
      ControllerMessage.effort, notice, announcement, message]
    omega
  | worker hw' =>
    have hcost := TestController.effort_workerStep (n := n) hw'
    rw [hquiet (by simp)]
    simp only [effort]
    omega
  | failed => exact absurd rfl (he _)
  | joined hpc =>
    rw [hquiet (by simp)]
    simp only [effort, hpc, ClientPc.effort, TestController.effort_keepResult]
    omega
  | start hpc | select hpc | store hpc | joinFailed hpc | denied hpc | sentResults hpc | sendFailed hpc =>
    rw [hquiet (by simp)]
    simp only [effort, hpc, ClientPc.effort, clientTurn, TestController.effort]
    omega

end ClientTest

/-! ## The accept loop -/

def AcceptPc.effort (n : Nat) : AcceptPc → Nat
  | .accepting | .returned => 0
  | .locking _ _ => connection n + 4
  | .helloData _ _ _ => connection n + 3
  | .welcomeData _ _ => connection n + 2
  | .handing _ _ => connection n + 1
  | .denying _ _ => 1
  | .hello _ => 3
  | .welcome _ _ _ => 2
  | .params _ _ _ => 1

/-- What the accept loop pays for what it does to a test. -/
def ServerEvent.granted (n : Nat) : ServerEvent → Nat
  | .offer _ => connection n
  | _ => 0

theorem ServerTest.effort_offered {t u : ServerTest} {e : ServerEvent} {n : Nat} (h : Step t e u)
    (he : e.ofAcceptLoop = true) : u.effort n = t.effort n + e.granted n := by
  cases h with
  | guard | unguard => simp [effort, ServerEvent.granted]
  | offer =>
    simp only [effort, TestController.effort, ControllerMessage.effort, ServerEvent.granted, List.map_append, List.sum_append,
      List.map_cons, List.map_nil, List.sum_cons, List.sum_nil]
    omega
  | _ => cases he

namespace Server
variable {decode : List UInt8 → Option ClientEnvelope} {s u : Server} {e : NetEvent} {n : Nat} {t t' : ServerTest}

theorem pc_effort (h : Step decode s e u) (hacc : ∀ socket, e ≠ .accept socket) (htest : ∀ k te, e ≠ .test k te) :
    u.pc.effort n + 1 ≤ s.pc.effort n := by
  cases h with
  | accept | acceptIdle => exact absurd rfl (hacc _)
  | test => exact absurd rfl (htest _ _)
  | handed hpc hv =>
    obtain ⟨_, _, -, -, -, -, rfl⟩ := handOver_eq hv
    simp [hpc, AcceptPc.effort]
  | guarded hpc | busy hpc | matched hpc | foreign hpc | malformed hpc | welcomed hpc | unwelcomed hpc | refused hpc
  | denied hpc | deniedHeld hpc | named hpc | unnamed hpc | invited hpc | uninvited hpc | created hpc | uncreated hpc
  | timedOut hpc =>
    simp [hpc, AcceptPc.effort, fail]

/-- A step of the accept loop is paid for by the connection at hand. -/
theorem loop_effort (h : Step decode s e u) (hw : s.Wired) {k : Nat} (ht : s.tests[k]? = some t)
    (ht' : u.tests[k]? = some t') (hacc : ∀ socket, e ≠ .accept socket) (htest : ∀ k te, e ≠ .test k te) :
    u.pc.effort n + t'.effort n + 1 ≤ s.pc.effort n + t.effort n := by
  have hpc := pc_effort (n := n) h hacc htest
  obtain ⟨t₀, ht₀, rfl | ⟨te, hte, hst⟩⟩ := Session.test_step h hw ht
  · obtain rfl := Option.some.inj (ht₀.symm.trans ht')
    omega
  obtain rfl := Option.some.inj (ht₀.symm.trans ht')
  have hcost := fun he => ServerTest.effort_offered (n := n) (ServerTest.step_cases hte) he
  rcases hst with he | rfl | rfl | ⟨c, rfl, hs, hu⟩
  · exact absurd he (htest _ _)
  · have hzero := hcost rfl
    simp only [ServerEvent.granted] at hzero
    omega
  · have hzero := hcost rfl
    simp only [ServerEvent.granted] at hzero
    omega
  · rw [hcost rfl, hs, hu, ServerEvent.granted, AcceptPc.effort, AcceptPc.effort]
    omega

end Server

/-! ## The session -/

/-- A connection on its way, its answer, and the worker it gets at the client. -/
def Dial.effort (n : Nat) : Dial → Nat
  | .none => 0
  | .pending _ => notice n + connection n + 10
  | .accepted _ => notice n + 5

namespace Session
variable {decode : List UInt8 → Option ClientEnvelope} {s u : Session} {e : SessionEvent} {cookie : String}
  {params : TestParameters} {t t' : ServerTest} {n : Nat}

/-- The streams the client has not begun to make. -/
def unmade (n : Nat) (s : Session) : Nat := n - (s.client.workers.length + if s.dial = .none then 0 else 1)

/-- What the whole session still costs, with all announcements, read or not. -/
def owed (n : Nat) (s : Session) (t : ServerTest) : Nat :=
  s.unmade n * stream n + s.dial.effort n + (s.server.pc.effort n + t.effort n) + s.client.effort n

/-- A step of the server that accepts nobody. -/
theorem owed_server (hi : Settled decode cookie params s t) (hn : s.client.totalNeededStreams = n) {v : Server} {ev : NetEvent}
    (h : Server.Step decode s.server ev v) (hf : Faultless s (.server ev)) (ht' : v.tests[s.test]? = some t') :
    v.pc.effort n + t'.effort n + (if (SessionEvent.server ev).within s.test then 1 else 0) ≤
      s.server.pc.effort n + t.effort n := by
  have hw := Server.wired_reach hi.server
  cases ev with
  | accept socket => cases hf
  | test k te =>
    cases h with
    | @test _ _ t₀ v' hpc hev ht₀ hte =>
    by_cases hk : k = s.test
    · subst hk
      obtain rfl := Option.some.inj (hi.test.symm.trans ht₀)
      obtain rfl : v' = t' := by simpa [List.getElem?_set, lt_of_getElem? hi.test] using ht'
      have hworkers : t.workers.length ≤ n := by
        rw [← hn]
        exact (ServerTest.workers_le_connections t).trans (hi.aligned.handed.length_le.trans hi.dialed_le)
      have hvanish : te ≠ .vanish := by
        rintro rfl
        cases hf rfl
      have hcost := ServerTest.effort_step (ServerTest.step_cases hte) (Pair.linked_reach hi.pair).phase hworkers
        (hi.ranked.toNumbered.len_le.trans hworkers) hev hvanish
      simp only [SessionEvent.within, decide_true, if_true]
      omega
    · obtain rfl : t = t' := by
        rw [List.getElem?_set_ne hk, hi.test] at ht'
        exact Option.some.inj ht'
      simp [SessionEvent.within, hk]
  | lock | read | write | send | timeout =>
    have hcost := Server.loop_effort (n := n) h hw hi.test ht' (by simp) (by simp)
    simp only [SessionEvent.within, if_true]
    omega

theorem Settled.client_cost (hi : Settled decode cookie params s t) (hn : s.client.totalNeededStreams = n)
    {ev : ClientEvent} {c : ClientTest} (h : s.client.step ev = some c) (he : ∀ err, ev ≠ .read (.error err)) :
    c.effort n + message n * s.client.heard.length + 1 ≤
      s.client.effort n + message n * c.heard.length + ev.granted n := by
  have hw : s.client.workers.length ≤ n := hn ▸ hi.gathering.bounded
  exact ClientTest.effort_step (ClientTest.step_cases h) hw (hi.gathering.ranked.toNumbered.len_le.trans hw) he

/-- Only a finished connection adds a worker. -/
theorem client_workers {c c' : ClientTest} {ev : ClientEvent} (h : ClientTest.Step c ev c')
    (hne : ∀ k, ev ≠ .connect (some k)) : c'.workers.length = c.workers.length := by
  have hstreams := congrArg List.length (ClientTest.streams_step h)
  cases ev with
  | connect stream =>
    cases stream with
    | none => simpa using hstreams
    | some k => exact absurd rfl (hne k)
  | _ => simpa using hstreams

/-- A step of the session is paid for by what is owed, and what the client reads
by the announcements. -/
theorem owed_step (h : s.step decode e = some u) (hf : Faultless s e) (hi : Settled decode cookie params s t)
    (hn : s.client.totalNeededStreams = n) (ht' : u.server.tests[s.test]? = some t') :
    u.owed n t' + message n * s.client.heard.length + (if e.within s.test then 1 else 0) ≤
      s.owed n t + message n * u.client.heard.length := by
  cases step_cases h with
  | server hd hs =>
    have hcost := owed_server hi hn (Server.step_cases hs) hf ht'
    simp only [owed, unmade] at hcost ⊢
    omega
  | @client ev c hne hd hs =>
    obtain rfl := Option.some.inj (hi.test.symm.trans ht')
    have hstep := ClientTest.step_cases hs
    have hcost := hi.client_cost hn hs (fun err herr => by subst herr; cases hf)
    have hlen := client_workers hstep hne
    have hgrant : ev.granted n = 0 := by
      cases ev with
      | connect stream =>
        cases stream with
        | none => rfl
        | some c => exact absurd rfl (hne c)
      | _ => rfl
    simp only [owed, unmade, hlen, SessionEvent.within, if_true]
    omega
  | @connected k c hd hm hs =>
    obtain rfl := Option.some.inj (hi.test.symm.trans ht')
    have hcost := hi.client_cost hn hs (by simp)
    have hlen : c.workers.length = s.client.workers.length + 1 := by
      simpa using congrArg List.length (ClientTest.streams_step (ClientTest.step_cases hs))
    simp only [ClientEvent.granted] at hcost
    simp only [owed, unmade, hlen, hd, SessionEvent.within, Dial.effort, reduceCtorEq, if_true, if_false, Nat.add_zero]
    omega
  | @dial socket hpc hd =>
    obtain rfl := Option.some.inj (hi.test.symm.trans ht')
    have hlt : s.client.workers.length < n := hn ▸ (hi.gathering.connecting hpc).2
    -- one stream less to be made pays for its connection
    obtain ⟨m, hm⟩ : ∃ m, n - s.client.workers.length = m + 1 := ⟨n - s.client.workers.length - 1, by omega⟩
    have hrest : n - (s.client.workers.length + 1) = m := by omega
    simp only [owed, unmade, hd, if_true, Nat.add_zero, hm, reduceCtorEq, if_false, hrest, Dial.effort, SessionEvent.within,
      Nat.add_mul, Nat.one_mul, stream]
    omega
  | @arrive socket v hd hs =>
    have haccept : t' = t ∧ v.pc.effort n ≤ connection n + 4 ∧ s.server.pc.effort n = 0 := by
      cases Server.step_cases hs with
      | accept hpc | acceptIdle hpc =>
        simp [hpc, AcceptPc.effort, Option.some.inj (ht'.symm.trans hi.test)]
    obtain ⟨rfl, hv, hzero⟩ := haccept
    simp only [owed, unmade, hd, hzero, SessionEvent.within, Dial.effort, reduceCtorEq, if_true, if_false]
    omega

/-- What the session still costs. -/
def effort (n : Nat) (s : Session) : Nat :=
  (s.server.tests[s.test]?).elim 0 (s.owed n) - message n * s.client.heard.length

theorem Settled.effort_eq (hi : Settled decode cookie params s t) :
    s.effort n + message n * s.client.heard.length = s.owed n t := by
  have hle := Nat.mul_le_mul_left (message n) (Pair.linked_reach hi.pair).heard.length_le
  simp only [effort, hi.test, Option.elim_some]
  simp only [owed, ServerTest.effort] at hle ⊢
  omega

/-- The events of the session use its effort up; others leave it. -/
theorem effort_step (h : s.step decode e = some u) (hf : Faultless s e) (hi : Settled decode cookie params s t)
    (hi' : Settled decode cookie params u t') (htest : u.test = s.test) :
    u.effort (ServerTest.new cookie params).totalNeededStreams + (if e.within s.test then 1 else 0) ≤
      s.effort (ServerTest.new cookie params).totalNeededStreams := by
  have hcost := owed_step h hf hi hi.needed (htest ▸ hi'.test)
  have heq := hi.effort_eq (n := (ServerTest.new cookie params).totalNeededStreams)
  have heq' := hi'.effort_eq (n := (ServerTest.new cookie params).totalNeededStreams)
  omega

/-- What a session costs: quadratic in the number of streams. -/
theorem effort_new {k : Nat} {w : Server} (hw : Created decode cookie params k w) :
    (new w k cookie params).effort n = n * (18 * n + 67) + 18 := by
  have hacc : w.pc = .accepting := by
    obtain ⟨v, -, ha, -, hs⟩ := hw
    exact (created_shape ha hs).1
  have hstream : stream n = 18 * n + 59 := by
    simp only [stream, connection, notice, announcement, serverTurn, message, clientTurn]
    omega
  have hheard : (new w k cookie params).client.heard = [] := rfl
  rw [effort, (settled_new hw).test, hheard]
  simp only [Option.elim_some, owed, unmade, hacc, hstream, AcceptPc.effort, new, ServerTest.new, ClientTest.new,
    TestController.new, ServerTest.effort, ClientTest.effort, ServerPc.effort, ClientPc.effort, TestController.effort,
    Dial.effort, announcement, serverTurn, message, clientTurn, List.map_nil, List.sum_nil, List.length_nil, Nat.mul_zero,
    Nat.mul_add, if_true, Nat.add_zero, Nat.sub_zero]
  omega

/-! ## Small tests -/

/-- With a test that fits the channels everybody finds room. -/
theorem Sustained.roomy (hi : Sustained decode cookie params s t)
    (hn : (ServerTest.new cookie params).totalNeededStreams ≤ internalProtBuffer) (e : SessionEvent) : Roomy s e := by
  constructor
  · unfold HasRoom
    split
    · unfold Server.hands
      split
      · rename_i c k hpc
        obtain ⟨rfl, hr⟩ := hi.flowing.target hi.settled hi.admissible (k := k) (c := c) (by simp [hpc, AcceptPc.target])
          (by simp [hpc, AcceptPc.conn])
        simpa [hi.settled.test] using hi.settled.connection_room hn hpc hr
      · rfl
    · trivial
  · unfold NoticeRoom
    split
    · rename_i k i we
      rintro rfl t₀ ht₀ hret
      obtain rfl := Option.some.inj (hi.settled.test.symm.trans ht₀)
      simpa [TestController.trySend] using (hi.settled.server_spacious hn).notice i we (.streamTerminated i) hret
    · trivial

theorem sustained_small {k : Nat} {w : Server} {es : List SessionEvent} (hw : Created decode cookie params k w)
    (hn : params.Startable) (hfit : (ServerTest.new cookie params).totalNeededStreams ≤ internalProtBuffer)
    (h : Run (step decode) (Clean decode cookie) (new w k cookie params) es s) :
    s.test = k ∧ ∃ t, Sustained decode cookie params s t := by
  induction h with
  | nil => exact ⟨rfl, _, sustained_new hw ((params.startable_iff cookie).2 hn)⟩
  | snoc _ hc hs ih =>
    obtain ⟨hk, t, hi⟩ := ih
    obtain ⟨htest, hi'⟩ := sustained_step hs hc (hi.roomy hfit _) hi
    exact ⟨htest.trans hk, hi'⟩

/-- Some event brings an unfinished session nearer to its end. -/
theorem Sustained.nears (hi : Sustained decode cookie params s t) (hello : ∃ socket, names decode socket cookie = true)
    (hfit : (ServerTest.new cookie params).totalNeededStreams ≤ internalProtBuffer) :
    s.Finished t ∨ ∃ e u, Clean decode cookie s e ∧ s.step decode e = some u ∧ u.test = s.test ∧
      (∃ t', Sustained decode cookie params u t') ∧ u.effort (ServerTest.new cookie params).totalNeededStreams <
        s.effort (ServerTest.new cookie params).totalNeededStreams := by
  rcases hi.goes_on hello with ⟨e, u, hown, ⟨hc, hroom⟩, hs⟩ | hf | hj
  · obtain ⟨htest, t', hi'⟩ := sustained_step hs hc hroom hi
    have hcost := effort_step hs hc.1.2.2 hi.settled hi'.settled htest
    simp only [hown, if_true] at hcost
    exact .inr ⟨e, u, hc, hs, htest, ⟨t', hi'⟩, by omega⟩
  · exact .inl hf
  · exact absurd hj (hi.unjammed hfit)

end Session

/-- A session without third parties and faults, in which no worker ends before
its controller has started the load, takes no more steps of its own than a number
quadratic in the streams of the test, in whatever order its parts take them. -/
theorem session_bounded {decode : List UInt8 → Option ClientEnvelope} {cookie : String} {params : TestParameters}
    {k : Nat} {w : Server} {es : List SessionEvent} {s : Session} (hw : Session.Created decode cookie params k w)
    (h : Run (Session.step decode) (Session.Smooth decode cookie) (Session.new w k cookie params) es s) :
    es.countP (SessionEvent.within k) ≤
      (ServerTest.new cookie params).totalNeededStreams * (18 * (ServerTest.new cookie params).totalNeededStreams + 67) +
        18 := by
  rw [← Session.effort_new hw]
  obtain ⟨-, hle⟩ := h.countP_add_le (SessionEvent.within k)
    (fun s => s.test = k ∧ ∃ t, Session.Settled decode cookie params s t)
    (Session.effort (ServerTest.new cookie params).totalNeededStreams) ⟨rfl, _, Session.settled_new hw⟩ (by
      rintro s e u ⟨rfl, t, hi⟩ hc hs
      obtain ⟨htest, -⟩ := Session.pair_step (Session.step_cases hs) (Server.wired_reach hi.server) hi.test
      obtain ⟨t', hi'⟩ := Session.settled_step hs hc.1 hi
      exact ⟨⟨htest, t', hi'⟩, Session.effort_step hs hc.2.2 hi hi' htest⟩)
  omega

/-- A test whose streams fit the channels can be brought to its end from every
point of a session without third parties, faults and panics, whose accept loop
reads settled states only and whose workers do not end before the load: both
controllers print their results, each its own and the other's. -/
theorem session_ends {decode : List UInt8 → Option ClientEnvelope} {cookie : String} {params : TestParameters} {k : Nat}
    {w : Server} {es : List SessionEvent} {s : Session} (hn : params.Startable)
    (hfit : (ServerTest.new cookie params).totalNeededStreams ≤ internalProtBuffer)
    (hw : Session.Created decode cookie params k w)
    (h : Run (Session.step decode) (Session.Clean decode cookie) (Session.new w k cookie params) es s) :
    ∃ es' u t, Run (Session.step decode) (Session.Clean decode cookie) s es' u ∧ u.server.tests[k]? = some t ∧
      u.Finished t := by
  have hnear : ∀ s : Session, (s.test = k ∧ ∃ t, Session.Sustained decode cookie params s t) →
      (∃ t, s.server.tests[k]? = some t ∧ s.Finished t) ∨ ∃ e u, Session.Clean decode cookie s e ∧
        s.step decode e = some u ∧ (u.test = k ∧ ∃ t, Session.Sustained decode cookie params u t) ∧
        u.effort (ServerTest.new cookie params).totalNeededStreams <
          s.effort (ServerTest.new cookie params).totalNeededStreams := by
    rintro s ⟨rfl, t, hi⟩
    rcases hi.nears hw.hello hfit with hf | ⟨e, u, hc, hs, htest, hi', hlt⟩
    · exact .inl ⟨t, hi.settled.test, hf⟩
    · exact .inr ⟨e, u, hc, hs, ⟨htest, hi'⟩, hlt⟩
  obtain ⟨es', u, hrun, -, t, ht, hf⟩ := exists_run_of_effort _ _ _ hnear (Session.sustained_small hw hn hfit h)
  exact ⟨es', u, t, hrun, ht, hf⟩

/-- Thirty-two steps of the setup are within the bound for one stream. -/
theorem session_bounded_loaded : ∃ w s, Session.Created Server.startDecode "c" (uploadParams 1) 0 w ∧
    Run (Session.step Server.startDecode) (Session.Smooth Server.startDecode "c") (Session.new w 0 "c" (uploadParams 1))
      Session.loadedRun s ∧
    Session.loadedRun.countP (SessionEvent.within 0) ≤ 1 * (18 * 1 + 67) + 18 := by
  obtain ⟨w, s, hw, hrun, -⟩ := Session.exists_session Server.startDecode (Session.Smooth Server.startDecode "c")
    (Server.peer Server.startEnvelopes false) "c" (uploadParams 1) Session.loadedRun (fun _ => true) (by decide +kernel)
  exact ⟨w, s, hw, hrun, session_bounded hw hrun⟩

theorem session_ends_loaded : ∃ w s, Session.Created Server.startDecode "c" (uploadParams 1) 0 w ∧
    Run (Session.step Server.startDecode) (Session.Clean Server.startDecode "c") (Session.new w 0 "c" (uploadParams 1))
      Session.loadedRun s ∧
    ∃ es u t, Run (Session.step Server.startDecode) (Session.Clean Server.startDecode "c") s es u ∧
      u.server.tests[0]? = some t ∧ u.Finished t := by
  obtain ⟨w, s, hw, hrun, -⟩ := Session.exists_session Server.startDecode (Session.Clean Server.startDecode "c")
    (Server.peer Server.startEnvelopes false) "c" (uploadParams 1) Session.loadedRun (fun _ => true) (by decide +kernel)
  exact ⟨w, s, hw, hrun, session_ends (by decide) (by decide) hw hrun⟩

end Netperf
