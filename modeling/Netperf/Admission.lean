import Netperf.Collection
import Netperf.Isolation
import Netperf.Gathering
/-!
# The streams a test admits

The accept loop decides by the stored state, and the controller counts what it
takes from its channel with an equality test. Between the last stream needed
and the store of `Running` the loop still lets connections through, and nobody
asks for an upper bound. If the loop hands over no more connections than the
test needs, all of them get to work.
-/

namespace Netperf

open Maps Runs Lists

/-- A worker that is told to start, and has room for it, keeps the message until
it starts. -/
theorem Worker.trySend_early {w : Worker} (m : WorkerMessage) (hi : w.inbox = [])
    (hpc : w.pc = .spawned ∨ w.pc = .waiting) : m ∈ (w.trySend m).inbox := by
  have hd : w.isDone = false := by
    unfold Worker.isDone
    rcases hpc with hpc | hpc <;> simp [hpc, WorkerPc.isDone]
  simp [Worker.trySend, hd, hi, internalProtBuffer]

theorem Worker.mem_trySend {w : Worker} {m m' : WorkerMessage} (h : m ∈ w.inbox) : m ∈ (w.trySend m').inbox := by
  unfold Worker.trySend
  split
  · exact h
  · exact List.mem_append_left _ h

namespace ServerTest

/-- A connection is handed over only while fewer than needed have been. -/
def RoomForStream (t : ServerTest) : ServerEvent → Prop
  | .offer _ => t.connections.length < t.totalNeededStreams
  | _ => True

/-- The test has no more workers than it needs. They are all in the map when
`StartLoad` is broadcast, and none waits for it in vain afterwards. -/
structure WithinNeed (t : ServerTest) : Prop where
  bounded : t.workers.length ≤ t.totalNeededStreams
  present : t.pc = .loopTop → t.state = .running → t.oldState ≠ .running →
    ∀ (i : Nat) (w : Worker), t.workers[i]? = some w → t.streams.lookup w.id = some ⟨i⟩
  started : t.oldState = .running → ∀ w ∈ t.workers, w.pc = .spawned ∨ w.pc = .waiting → .startLoad ∈ w.inbox

/-- How many workers there are, what they were sent, and which are in the map. -/
structure Admitted (t : ServerTest) : Prop where
  listed : t.Listed
  bounded : t.connections.length ≤ t.totalNeededStreams
  full : t.nextState = .running ∨ t.oldState = .running → t.workers.length = t.totalNeededStreams
  present : t.nextState = .running → t.oldState ≠ .running →
    ∀ (i : Nat) (w : Worker), t.workers[i]? = some w → t.streams.lookup w.id = some ⟨i⟩
  silent : t.oldState ≠ .running → t.state ≠ .exchangeResults → ∀ w ∈ t.workers, w.inbox = []
  started : t.oldState = .running → ∀ w ∈ t.workers, w.pc = .spawned ∨ w.pc = .waiting → .startLoad ∈ w.inbox

variable {t u : ServerTest} {e : ServerEvent}

theorem Admitted.new (cookie : String) (params : TestParameters) : Admitted (new cookie params) :=
  ⟨.new _ rfl, by simp [connections, ServerTest.new, TestController.new],
    by simp [nextState, ServerTest.new, TestController.new, PerfTest.new],
    by simp [nextState, ServerTest.new, TestController.new, PerfTest.new],
    by simp [ServerTest.new, TestController.new], by simp [ServerTest.new]⟩

/-- A step that leaves the workers and the map alone. -/
theorem Admitted.same (hi : Admitted t) (hl : u.Listed) (hb : u.connections.length ≤ u.totalNeededStreams)
    (ht : u.totalNeededStreams = t.totalNeededStreams) (hw : u.workers = t.workers)
    (hs : u.nextState = .running → (t.nextState = .running ∧ u.streams = t.streams) ∨ t.oldState = .running)
    (ho : u.oldState = .running ↔ t.oldState = .running) (he : u.state ≠ .exchangeResults → t.state ≠ .exchangeResults) :
    Admitted u := by
  refine ⟨hl, hb, ?_, ?_, ?_, ?_⟩
  · intro h
    rw [hw, ht]
    rcases h with h | h
    · exact hi.full ((hs h).imp_left And.left)
    · exact hi.full (.inr (ho.1 h))
  · intro h1 h2
    rcases hs h1 with ⟨hn, hstreams⟩ | hn
    · rw [hw, hstreams]
      exact hi.present hn (fun h => h2 (ho.2 h))
    · exact absurd (ho.2 hn) h2
  · intro h1 h2
    rw [hw]
    exact hi.silent (fun h => h1 (ho.2 h)) (he h2)
  · intro h
    rw [hw]
    exact hi.started (ho.1 h)

/-- A connection is taken while the state is `CreateStreams`: with more workers
than that the bound would be passed. -/
theorem Admitted.accept (hi : Admitted t) (hp : Phase t) (hpc : t.pc = .waiting) {n : Nat}
    {rest handled : List ControllerMessage} (hq : t.queue = .createStream n :: rest) :
    Admitted ({ t with queue := rest, handled := handled }.acceptStream n) := by
  have hlt : t.workers.length < t.totalNeededStreams := by
    refine Nat.lt_of_lt_of_le ?_ hi.bounded
    simp [connections, hq]
  have hold : t.oldState ≠ .running := by
    intro ho
    have := hi.full (.inr ho)
    omega
  simp only [Phase, hpc] at hp
  have hstate : t.state = .createStreams t.cookie := hp.2.resolve_right (fun h => hold (hp.1.trans h))
  have hlisted : ({ t with queue := rest, handled := handled }.acceptStream n).Listed := hi.listed.register n
  have hlen : ({ t with queue := rest, handled := handled }.acceptStream n).workers.length = t.workers.length + 1 := by
    simp [TestController.createAndRegisterStreamWorker]
  -- the map has as many entries as the test needs workers
  have hfull : ({ t with queue := rest, handled := handled }.acceptStream n).nextState = .running →
      t.totalNeededStreams ≤ len ({ t with queue := rest, handled := handled }.acceptStream n).streams := by
    intro hn
    by_cases h : len (t.createAndRegisterStreamWorker n).streams = t.totalNeededStreams
    · exact h.ge
    · have hnext : ({ t with queue := rest, handled := handled }.acceptStream n).pc = .loopTop := if_neg h
      simp only [nextState, hnext] at hn
      exact absurd (hstate.symm.trans hn) (by simp)
  refine ⟨hlisted, ?_, ?_, ?_, ?_, fun h => absurd h hold⟩
  · have hconn : ({ t with queue := rest, handled := handled }.acceptStream n).connections = t.connections := by
      simp [connections, hq, TestController.createAndRegisterStreamWorker]
    rw [hconn]
    exact hi.bounded
  · rintro (hn | ho)
    · have h1 := hfull hn
      have h2 := hlisted.len_le
      rw [hlen] at h2 ⊢
      change t.workers.length + 1 = t.totalNeededStreams
      omega
    · exact absurd ho hold
  · intro hn _ i w hw
    refine hlisted.all_present ?_ hw
    have h1 := hfull hn
    rw [hlen]
    omega
  · intro _ _ w hw
    rcases List.mem_append.1 hw with hw | hw
    · exact hi.silent hold (by simp [hstate]) w hw
    · rw [List.mem_singleton.1 hw]

/-- Every worker gets the broadcast of `StartLoad`. -/
theorem Admitted.startLoad (hi : Admitted t) (hpc : t.pc = .loopTop) (hs : t.state = .running)
    (ho : t.oldState ≠ .running) : Admitted
      { t with toTestController := t.broadcastToStreams .startLoad, oldState := t.state, pc := .waiting } := by
  have hnext : t.nextState = .running := by simp [nextState, hpc, hs]
  have hlen : (t.broadcastToStreams .startLoad).workers.length = t.workers.length := by
    simpa using congrArg List.length (t.broadcast_stage .startLoad)
  refine ⟨hi.listed.sub (TestController.broadcast_stage _ _) (fun _ _ h => h), ?_, ?_, fun _ h => absurd hs h,
    fun h => absurd hs h, ?_⟩
  · have hb := hi.bounded
    simp only [connections, List.length_append, List.length_map] at hb ⊢
    rw [hlen]
    exact hb
  · intro _
    rw [hlen]
    exact hi.full (.inl hnext)
  · intro _ w hw hw'
    obtain ⟨i, hget⟩ := List.getElem?_of_mem hw
    obtain ⟨v, hv, rfl⟩ := t.broadcast_origin hget
    rw [if_pos (hi.present hnext ho i v hv)] at hw' ⊢
    have hstage := v.trySend_stage .startLoad
    have hpc' : (v.trySend .startLoad).pc = v.pc := congrArg (fun x => x.2.2.2) hstage
    rw [hpc'] at hw'
    exact Worker.trySend_early _ (hi.silent ho (by simp [hs]) v (List.mem_of_getElem? hv)) hw'

theorem collectNext_nextState (pending : Map StreamWorkerRef) : (t.collectNext pending).nextState = t.state := by
  by_cases h : len pending = 0 <;> simp [collectNext, nextState, h]

theorem afterTermination_nextState (h : t.afterTermination.nextState = .running) : t.state = .running := by
  by_cases hc : len t.streams = 0
  · simp [afterTermination, nextState, hc] at h
  · simpa [afterTermination, nextState, hc] using h

/-- A worker's own steps take messages from its inbox only to start. -/
theorem Admitted.worker (hi : Admitted t) {i : Nat} {we : WorkerEvent} {c : TestController}
    (hs : t.workerStep (!t.returned) (t.channelOpen i) i we = some c) (hl : c.Listed)
    (hb : { t with toTestController := c }.connections.length ≤ t.totalNeededStreams) :
    Admitted { t with toTestController := c } := by
  obtain ⟨w, w', hw, hstep, hws, ht, -⟩ := TestController.workerStep_spec hs
  have hspec := Worker.step_spec hstep
  have hnext : { t with toTestController := c }.nextState = t.nextState := by simp [nextState, ht]
  have hmem : ∀ v ∈ c.workers, v ∈ t.workers ∨ v = w' := by
    intro v hv
    rw [hws] at hv
    exact List.mem_or_eq_of_mem_set hv
  refine ⟨hl, ?_, ?_, ?_, ?_, ?_⟩
  · rwa [PerfTest.totalNeededStreams_config (congrArg PerfTest.config ht)]
  · intro h
    rw [hnext] at h
    simp only [hws, List.length_set]
    rw [PerfTest.totalNeededStreams_config (congrArg PerfTest.config ht)]
    exact hi.full h
  · intro h1 h2 j v hv
    rw [hnext] at h1
    simp only [hws] at hv
    simp only [ht]
    rcases (getElem?_set_iff (lt_of_getElem? hw)).1 hv with ⟨rfl, rfl⟩ | ⟨-, hv⟩
    · rw [hspec.1]
      exact hi.present h1 h2 _ w hw
    · exact hi.present h1 h2 j v hv
  · intro h1 h2 v hv
    simp only [ht] at h2
    have hsilent := hi.silent h1 h2
    rcases hmem v hv with hv | rfl
    · exact hsilent v hv
    · exact Worker.step_inbox hstep (hsilent w (List.mem_of_getElem? hw))
  · intro ho v hv hpc
    rcases hmem v hv with hv | rfl
    · exact hi.started ho v hv hpc
    · obtain ⟨hearly, hinbox⟩ := Worker.step_early hstep hpc
      rw [hinbox]
      exact hi.started ho w (List.mem_of_getElem? hw) hearly

/-- The controller waits only after it has seen the stored state. -/
theorem seen_of_waits (hp : Phase t) (hpc : t.pc = .loopTop)
    (hs : (∃ cookie, t.state = .createStreams cookie) ∨ (t.state = .running ∧ t.oldState = .running) ∨
      t.state = .displayResults) : t.oldState = .running ↔ t.state = .running := by
  rcases hp.waits hpc hs with ⟨⟨c, hs⟩, ho⟩ | ⟨hs, ho⟩
  · simp [hs, ho]
  · simp [hs, ho]

/-- `Terminate` takes no `StartLoad` away. -/
theorem Admitted.finish (hi : Admitted t) (hs : t.state = .exchangeResults) (hl : ({ t with toTestController :=
    { t.broadcastToStreams .terminate with streams := ∅ } }.collectNext t.streams).Listed)
    (hb : ({ t with toTestController := { t.broadcastToStreams .terminate with streams := ∅ } }.collectNext
      t.streams).connections.length ≤ t.totalNeededStreams) :
    Admitted ({ t with toTestController := { t.broadcastToStreams .terminate with streams := ∅ } }.collectNext
      t.streams) := by
  have hlen : (t.broadcastToStreams .terminate).workers.length = t.workers.length := by
    simpa using congrArg List.length (t.broadcast_stage .terminate)
  have hne : ∀ c : TestController, c.toPerfTest = { t.toPerfTest with streams := ∅ } →
      ({ t with toTestController := c }.collectNext t.streams).nextState ≠ .running := by
    intro c hc
    rw [collectNext_nextState]
    simp [hc, hs]
  refine ⟨hl, hb, ?_, fun h => absurd h (hne _ rfl), fun _ h => absurd hs h, ?_⟩
  · intro h
    exact hlen.trans (hi.full (.inr (h.resolve_left (hne _ rfl))))
  · intro ho w hw hw'
    obtain ⟨i, hget⟩ := List.getElem?_of_mem hw
    obtain ⟨v, hv, rfl⟩ := t.broadcast_origin hget
    rw [Worker.trySend_if_pc] at hw'
    have hstart := hi.started ho v (List.mem_of_getElem? hv) hw'
    split
    · exact Worker.mem_trySend hstart
    · exact hstart

theorem admitted_step (h : Step t e u) (hc : RoomForStream t e) (hp : Phase t) (hi : Admitted t) : Admitted u := by
  have hl := owned_step h hi.listed
  have ht := PerfTest.totalNeededStreams_config (config_of_step h)
  have hb : u.connections.length ≤ u.totalNeededStreams := by
    have hb := hi.bounded
    rw [connections_step h, ht]
    cases e with
    | offer =>
      simp only [RoomForStream] at hc
      simp only [ServerEvent.offered, List.length_append, List.length_singleton]
      omega
    | _ => simpa [ServerEvent.offered] using hb
  cases h with
  | accept hpc hq => exact hi.accept hp hpc hq
  | startLoad _ hpc hs ho => exact hi.startLoad hpc hs ho
  | start _ hpc =>
    simp only [Phase, hpc] at hp
    exact hi.same hl hb ht rfl (fun h => .inl ⟨by simpa [nextState, hpc] using h, rfl⟩) (by simp [hp.1, hp.2]) (fun h => h)
  | announce => exact hi.same hl hb ht rfl (by simp [nextState]) Iff.rfl (fun h => h)
  | wait _ hpc hs =>
    exact hi.same hl hb ht rfl (fun h => .inl ⟨by simpa [nextState, hpc] using h, rfl⟩) (seen_of_waits hp hpc hs).symm (fun h => h)
  | finish _ hpc hs => exact hi.finish hs hl (ht ▸ hb)
  | store _ hpc =>
    simp only [Phase, hpc] at hp
    exact hi.same hl hb ht rfl (fun h => .inl ⟨by simpa [nextState, hpc] using h, rfl⟩) Iff.rfl (fun _ => hp.2.not_ended)
  | wrote hpc => exact hi.same hl hb ht rfl (fun h => .inl ⟨by simpa [nextState, hpc] using h, rfl⟩) Iff.rfl (fun h => h)
  | worker hw => exact hi.worker hw hl (ht ▸ hb)
  | writeFailed hpc =>
    rename_i s
    simp only [Phase, hpc] at hp
    refine hi.same hl hb ht rfl (fun h => .inl ⟨?_, rfl⟩) Iff.rfl (fun h => h)
    simp only [nextState] at h
    have htr := hp.2.1
    rw [h] at htr
    simp only [nextState, hpc]
    generalize hs : s = s' at htr
    cases htr with
    | rerun => rfl
    | finish => simp [hs] at hp
  | writeIgnored hpc | terminated hpc | joinFailed hpc =>
    simp only [Phase, hpc] at hp
    exact hi.same hl hb ht rfl (fun h => .inr (hp.1.trans h)) Iff.rfl (fun h => h)
  | unknown hpc =>
    simp only [Phase, hpc] at hp
    exact hi.same hl hb ht rfl (fun h => .inr (hp.1.trans (afterTermination_nextState h))) Iff.rfl (fun h => h)
  | joined hpc =>
    simp only [Phase, hpc] at hp
    refine hi.same hl hb ht (by simp) (fun h => .inr (hp.1.trans ?_)) Iff.rfl (by simp)
    simpa using afterTermination_nextState h
  | collected hpc | timedOut hpc =>
    simp only [Phase, hpc] at hp
    refine hi.same hl hb ht (by simp) (fun h => ?_) Iff.rfl (by simp)
    rw [collectNext_nextState] at h
    simp [hp] at h
  | readResults hpc | readOther hpc | readFailed hpc | sentResults hpc | sendFailed hpc =>
    simp only [Phase, hpc] at hp
    exact hi.same hl hb ht rfl (by simp [nextState, hp]) Iff.rfl (fun h => h)
  | guard | unguard | vanish => exact hi.same hl hb ht rfl (fun h => .inl ⟨h, rfl⟩) Iff.rfl (fun h => h)
  | offer => exact hi.same hl hb ht rfl (fun h => .inl ⟨h, rfl⟩) Iff.rfl (fun h => h)

/-- The test admits no more streams than it needs in every run in which the
accept loop hands over no more. -/
theorem admits_no_more {cookie : String} {params : TestParameters} {es : List ServerEvent} {t : ServerTest}
    (h : Run step RoomForStream (new cookie params) es t) : WithinNeed t := by
  have main : Phase t ∧ Admitted t := by
    refine h.inv (fun t => Phase t ∧ Admitted t) ⟨⟨rfl, rfl⟩, .new cookie params⟩ ?_
    rintro t e u ⟨hp, hi⟩ hc hs
    have hstep := step_cases hs
    exact ⟨phase_step hstep hp, admitted_step hstep hc hp hi⟩
  obtain ⟨-, hi⟩ := main
  refine ⟨(workers_le_connections t).trans hi.bounded, fun hpc hs ho => ?_, hi.started⟩
  exact hi.present (by simp [nextState, hpc, hs]) ho

instance (t : ServerTest) : ∀ e, Decidable (RoomForStream t e)
  | .lock | .write _ | .recv | .join | .collect _ _ | .read _ | .worker _ _ | .guard | .unguard | .offer _ | .vanish => by
    unfold RoomForStream
    infer_instance

/-- Three streams for a test that needs three. -/
theorem admits_no_more_three : ∃ es t, Run step RoomForStream (new "c" (uploadParams 3)) es t ∧
    t.oldState = .running ∧ t.workers.length = 3 ∧ WithinNeed t := by
  obtain ⟨t, hrun, ht⟩ := exists_run_of_exec step RoomForStream (new "c" (uploadParams 3))
    (announceRun ++ connectRun 3) (fun t => t.oldState = .running ∧ t.workers.length = 3) (by decide +kernel)
  simp only [decide_eq_true_eq] at ht
  exact ⟨_, t, hrun, ht.1, ht.2, admits_no_more hrun⟩

/-- A test that needs one stream gets two: both connections pass the check
before the first is taken from the channel. The second worker is registered
after the load has started. -/
theorem admits_surplus : ∃ t, Reach step (new "c" (uploadParams 1)) t ∧ ¬ WithinNeed t := by
  obtain ⟨t, hr, ht⟩ := exists_of_exec step (new "c" (uploadParams 1))
    (announceRun ++ [.guard, .offer 0, .guard, .offer 1, .recv, .write true, .lock, .lock, .recv, .lock])
    (fun t => t.workers.length = 2 ∧ t.totalNeededStreams = 1 ∧ t.oldState = .running ∧ t.pc = .waiting)
    (by decide +kernel)
  simp only [decide_eq_true_eq] at ht
  obtain ⟨h1, h2, -⟩ := ht
  refine ⟨t, hr, fun hn => ?_⟩
  have hb := hn.bounded
  omega

end ServerTest

end Netperf
