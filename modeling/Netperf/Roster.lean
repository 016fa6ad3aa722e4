import Netperf.Setup
import Netperf.Room
/-!
# A row for every stream

If no task fails and no timer of the final drain runs out, what an end collects
has one entry for each stream of its test. Until then every worker is in the
hands of its controller or has its stats among the results.
-/

namespace Netperf

open Maps Runs Lists

/-! ## Tasks that do not fail -/

/-- No task fails or panics, and no drain gives a task up. -/
def ServerEvent.unbroken : ServerEvent → Bool
  | .worker _ e => e ≠ .fail ∧ e ≠ .panic
  | .collect _ joined => joined
  | _ => true

def ClientEvent.unbroken : ClientEvent → Bool
  | .worker _ e => e ≠ .fail ∧ e ≠ .panic
  | .collect _ joined => joined
  | _ => true

/-- The worker has not had its `StartLoad`. -/
def Worker.early (w : Worker) : Prop := w.pc = .spawned ∨ w.pc = .waiting

/-- The stats of the worker, if it has any, are those of its direction, and it
returns them. -/
def Worker.Sound (w : Worker) : Prop :=
  match w.pc with
  | .draining stats => stats.sender = w.isSending
  | .done r => ∃ stats, r = .ok stats ∧ stats.sender = w.isSending
  | _ => True

theorem Worker.Sound.same {v w : Worker} (h : v.Sound) (hs : w.stage = v.stage) : w.Sound := by
  simp only [Worker.stage, Prod.mk.injEq] at hs
  obtain ⟨-, -, hd, hp⟩ := hs
  unfold Sound at *
  rwa [hd, hp]

/-- A worker that has been told to start, or can still be told, does not fail. -/
theorem Worker.Sound.step {w w' : Worker} {o : Bool} {e : WorkerEvent} (h : w.Sound) (hs : w.step o e = some w')
    (he : e ≠ .fail ∧ e ≠ .panic)
    (hm : w.early → w.inbox.head? = some .startLoad ∨ (w.inbox = [] ∧ o = true)) : w'.Sound := by
  obtain ⟨hf, hp⟩ := he
  cases e with
  | fail => exact absurd rfl hf
  | panic => exact absurd rfl hp
  | start | drained =>
    simp only [Worker.step] at hs
    split at hs <;> cases hs
    simp_all [Sound]
  | stop stats =>
    simp only [Worker.step] at hs
    split at hs
    · cases hs
      cases hd : w.isSending <;> simp [Sound]
    · cases hs
  | message =>
    simp only [Worker.step] at hs
    split at hs
    · cases hs
      trivial
    · rename_i rest hpc hin
      rcases hm (.inr hpc) with hh | ⟨hh, -⟩ <;> simp [hin] at hh
    · rename_i hpc hin
      rcases hm (.inr hpc) with hh | ⟨-, rfl⟩
      · simp [hin] at hh
      · simp at hs
    · rename_i rest hpc hin
      cases hs
      simp [Sound, hpc]
    · cases hs

/-! ## Workers and results -/

namespace TestController
variable {c d : TestController} {holds holds' : Nat → Prop} {started started' : Prop}

theorem Numbered.listed (h : Numbered c) : Listed c := by
  intro id ref hl
  obtain ⟨rfl, hlt⟩ := h.refs id ref hl
  exact ⟨_, List.getElem?_eq_getElem hlt, h.ids _ _ (List.getElem?_eq_getElem hlt)⟩

/-- The controller `holds` every worker, or has its stats. `started` says that
the streams have been told to start. -/
structure Tended (c : TestController) (holds : Nat → Prop) (started : Prop) : Prop where
  fresh : ¬ started → c.Unended ∧ ∀ w ∈ c.workers, w.inbox = []
  told : started → ∀ w ∈ c.workers, w.early → w.inbox.head? = some .startLoad
  sound : ∀ w ∈ c.workers, w.Sound
  rows : ∀ i w, c.workers[i]? = some w →
    holds i ∨ ∃ stats, w.pc = .done (.ok stats) ∧ c.streamResults.lookup i = some stats
  only : ∀ id stats, c.streamResults.lookup id = some stats → id < c.workers.length

theorem Tended.new (test : PerfTest) (h : test.streams = ∅) : Tended (TestController.new test) holds started :=
  ⟨fun _ => ⟨.new test h, by simp [TestController.new]⟩, by simp [TestController.new], by simp [TestController.new],
    by simp [TestController.new], by simp [TestController.new]⟩

/-- A change that leaves the workers and the results alone. -/
theorem Tended.same (h : Tended c holds started) (hw : d.workers = c.workers) (hr : d.streamResults = c.streamResults)
    (hs : started' ↔ started) (hu : ¬ started → d.Unended) (hh : ∀ i, holds i → holds' i) :
    Tended d holds' started' := by
  rw [propext hs]
  refine ⟨fun hn => ⟨hu hn, hw ▸ (h.fresh hn).2⟩, hw ▸ h.told, hw ▸ h.sound, ?_, ?_⟩
  · intro i w hi
    rw [hw] at hi
    rw [hr]
    exact (h.rows i w hi).imp_left (hh i)
  · rw [hw, hr]
    exact h.only

/-- A stream is registered before the start. -/
theorem Tended.register (h : Tended c holds started) (hs : ¬ started) (hn : Numbered c) (s : Nat)
    (hh : ∀ i, (c.createAndRegisterStreamWorker s).streams.lookup i = some ⟨i⟩ → holds' i) :
    Tended (c.createAndRegisterStreamWorker s) holds' started := by
  obtain ⟨hu, hin⟩ := h.fresh hs
  have hu' := hu.register hn s
  have hn' := (hn.register hu.size s).1
  refine ⟨fun _ => ⟨hu', ?_⟩, fun ht => absurd ht hs, ?_, ?_, ?_⟩
  · intro w hw
    rcases List.mem_append.1 hw with hw | hw
    · exact hin w hw
    · rw [List.mem_singleton.1 hw]
  · intro w hw
    rcases List.mem_append.1 hw with hw | hw
    · exact h.sound w hw
    · rw [List.mem_singleton.1 hw]
      trivial
  · intro i w hi
    have hl := hn'.listed.all_present hu'.size.ge hi
    rw [hn'.ids i w hi] at hl
    exact .inl (hh i hl)
  · intro id stats hl
    have hlt := h.only id stats hl
    simp only [createAndRegisterStreamWorker, List.length_append, List.length_singleton]
    omega

/-- What a message to the streams leaves of the workers. -/
theorem Tended.broadcast (h : Tended c holds started) (m : WorkerMessage) :
    (∀ w ∈ (c.broadcastToStreams m).workers, w.Sound) ∧
      (∀ i w, (c.broadcastToStreams m).workers[i]? = some w →
        holds i ∨ ∃ stats, w.pc = .done (.ok stats) ∧ c.streamResults.lookup i = some stats) ∧
      ∀ id stats, c.streamResults.lookup id = some stats → id < (c.broadcastToStreams m).workers.length := by
  refine ⟨?_, ?_, ?_⟩
  · intro w hw
    obtain ⟨i, hi⟩ := List.getElem?_of_mem hw
    obtain ⟨v, hv, rfl⟩ := c.broadcast_origin hi
    exact (h.sound v (List.mem_of_getElem? hv)).same (v.trySend_if_stage m _)
  · intro i w hi
    obtain ⟨v, hv, rfl⟩ := c.broadcast_origin hi
    rw [Worker.trySend_if_pc]
    exact h.rows i v hv
  · have hlen : (c.broadcastToStreams m).workers.length = c.workers.length := by
      simpa using congrArg List.length (c.broadcast_stage m)
    rw [hlen]
    exact h.only

/-- All workers are there when the load starts, and get the message. -/
theorem Tended.startLoad (h : Tended c holds started) (hs : ¬ started) (hn : Numbered c) {now : Prop} (hnow : now) :
    Tended (c.broadcastToStreams .startLoad) holds now := by
  obtain ⟨hu, hin⟩ := h.fresh hs
  obtain ⟨hsound, hrows, honly⟩ := h.broadcast .startLoad
  refine ⟨fun hno => absurd hnow hno, fun _ w hw he => ?_, hsound, hrows, honly⟩
  obtain ⟨i, hi⟩ := List.getElem?_of_mem hw
  obtain ⟨v, hv, rfl⟩ := c.broadcast_origin hi
  have hvm := List.mem_of_getElem? hv
  have hl := hn.listed.all_present hu.size.ge hv
  simp [hl, Worker.trySend, hu.running v hvm, hin v hvm, internalProtBuffer]

/-- `Terminate` comes after `StartLoad`. -/
theorem Tended.terminate (h : Tended c holds started) (hs : started) (hh : ∀ i, holds i → holds' i) :
    Tended { c.broadcastToStreams .terminate with streams := ∅ } holds' started := by
  obtain ⟨hsound, hrows, honly⟩ := h.broadcast .terminate
  refine ⟨fun hno => absurd hs hno, fun _ w hw he => ?_, hsound, fun i w hi => (hrows i w hi).imp_left (hh i), honly⟩
  obtain ⟨i, hi⟩ := List.getElem?_of_mem hw
  obtain ⟨v, hv, rfl⟩ := c.broadcast_origin hi
  have hhead := h.told hs v (List.mem_of_getElem? hv) (by simpa only [Worker.early, Worker.trySend_if_pc] using he)
  unfold Worker.trySend
  split
  · split
    · exact hhead
    · simp only [List.head?_append, hhead, Option.some_or]
  · exact hhead

/-- A joined worker has its row. -/
theorem Tended.join (h : Tended c holds started) (hn : Numbered c) {id : Nat} {ref : StreamWorkerRef} {r : TaskResult}
    (ho : c.Owns id ref) (hr : c.taskResult ref = some r) (hu : ¬ started → (c.keepResult id r).Unended)
    (hh : ∀ i, holds i → i = id ∨ holds' i) : Tended (c.keepResult id r) holds' started := by
  obtain ⟨w, hw, hid⟩ := ho
  have hpc := pc_of_taskResult hw hr
  have htask : ref.task = id := (hn.ids _ _ hw).symm.trans hid
  have hsound := h.sound w (List.mem_of_getElem? hw)
  simp only [Worker.Sound, hpc] at hsound
  obtain ⟨stats, rfl, -⟩ := hsound
  refine ⟨fun hno => ⟨hu hno, by simpa using (h.fresh hno).2⟩, by simpa using h.told, by simpa using h.sound, ?_, ?_⟩
  · intro i v hi
    rw [keepResult_workers] at hi
    simp only [keepResult, lookup_insert_iff]
    by_cases he : i = id
    · subst he
      rw [htask, hi, Option.some.injEq] at hw
      subst hw
      exact .inr ⟨stats, hpc, .inl ⟨rfl, rfl⟩⟩
    · rcases h.rows i v hi with hi | ⟨stats', hv, hl⟩
      · exact .inl ((hh i hi).resolve_left he)
      · exact .inr ⟨stats', hv, .inr ⟨he, hl⟩⟩
  · intro id' stats' hl
    simp only [keepResult, lookup_insert_iff] at hl
    rw [keepResult_workers]
    rcases hl with ⟨rfl, -⟩ | ⟨-, hl⟩
    · exact htask ▸ lt_of_getElem? hw
    · exact h.only id' stats' hl

/-- A worker that runs is in the controller's hands, with its channel open. -/
theorem Tended.workerStep (h : Tended c holds started) {alive o : Bool} {i : Nat} {e : WorkerEvent}
    (hs : c.workerStep alive o i e = some d) (he : e ≠ .fail ∧ e ≠ .panic) (ho : holds i → o = true)
    (hl : holds i → c.ends o i e = true → started) : Tended d holds started := by
  obtain ⟨w, w', hw, hstep, hd, -⟩ := workerStep_spec hs
  have hwm := List.mem_of_getElem? hw
  have hrun := (Worker.step_spec hstep).2.2.2
  have hlt := lt_of_getElem? hw
  have hheld : holds i := by
    refine (h.rows i w hw).resolve_right ?_
    rintro ⟨stats, hpc, -⟩
    simp [Worker.isDone, WorkerPc.isDone, hpc] at hrun
  have hmail : w.early → w.inbox.head? = some .startLoad ∨ (w.inbox = [] ∧ o = true) := by
    intro hearly
    by_cases hst : started
    · exact .inl (h.told hst w hwm hearly)
    · exact .inr ⟨(h.fresh hst).2 w hwm, ho hheld⟩
  refine ⟨fun hno => ⟨(h.fresh hno).1.workerStep hs (by simpa using mt (hl hheld) hno), ?_⟩, ?_, ?_, ?_, ?_⟩
  · intro v hv
    rcases List.mem_or_eq_of_mem_set (hd ▸ hv) with hv | rfl
    · exact (h.fresh hno).2 v hv
    · exact Worker.step_inbox hstep ((h.fresh hno).2 w hwm)
  · intro hst v hv hearly
    rcases List.mem_or_eq_of_mem_set (hd ▸ hv) with hv | rfl
    · exact h.told hst v hv hearly
    · obtain ⟨hbefore, hin⟩ := Worker.step_early hstep hearly
      exact hin ▸ h.told hst w hwm hbefore
  · intro v hv
    rcases List.mem_or_eq_of_mem_set (hd ▸ hv) with hv | rfl
    · exact h.sound v hv
    · exact (h.sound w hwm).step hstep he hmail
  · intro j v hj
    rw [hd, getElem?_set_iff hlt] at hj
    rcases hj with ⟨rfl, -⟩ | ⟨-, hj⟩
    · exact .inl hheld
    · rw [workerStep_results hs]
      exact h.rows j v hj
  · rw [workerStep_results hs, hd, List.length_set]
    exact h.only

/-- When the controller holds nothing any more, the results have a row for every
worker, and no other. -/
theorem Tended.rows_eq (h : Tended c holds started) (hr : Ranked c) (hh : ∀ i, ¬ holds i) (id : Nat) :
    (c.streamResults.lookup id).map StreamStats.sender =
      if id < c.workers.length then some (c.isSendingAt id) else none := by
  split
  · rename_i hlt
    have hget := List.getElem?_eq_getElem hlt
    obtain ⟨stats, hpc, hl⟩ := (h.rows id _ hget).resolve_left (hh id)
    have hsound := h.sound _ (List.mem_of_getElem? hget)
    simp only [Worker.Sound, hpc, TaskResult.ok.injEq] at hsound
    obtain ⟨_, rfl, hd⟩ := hsound
    rw [hl, Option.map_some, hd, hr.directed id _ hget]
  · rename_i hge
    cases hl : c.streamResults.lookup id with
    | none => rfl
    | some stats => exact absurd (h.only id stats hl) hge

end TestController

/-! ## The server -/

namespace ServerTest
variable {t u : ServerTest} {e : ServerEvent} {js : List Nat}

/-- Worker `i` is listed, or in the hands of the controller. -/
def holds (t : ServerTest) (i : Nat) : Prop :=
  match t.pc with
  | .joining id _ => i = id ∨ t.streams.lookup i = some ⟨i⟩
  | .collecting pending => pending.lookup i = some ⟨i⟩
  | .readingResults _ | .sendingResults _ _ | .returned _ => False
  | _ => t.streams.lookup i = some ⟨i⟩

/-- The test ends after its load only. -/
def Led (t : ServerTest) : Prop :=
  t.nextState = .exchangeResults ∨ t.collected.isSome = true → t.oldState = .running

/-- Every stream of the test is accounted for, and no task is joined before the
load. -/
structure Rostered (t : ServerTest) : Prop where
  tended : t.Tended t.holds (t.oldState = .running)
  unjoined : t.oldState ≠ .running → ∀ id ref, t.pc ≠ .joining id ref
  led : t.Led
  manned : t.oldState = .running → t.totalNeededStreams ≤ t.workers.length

theorem Rostered.new (cookie : String) (params : TestParameters) : Rostered (new cookie params) := by
  refine ⟨.new _ rfl, by simp [ServerTest.new], ?_, ?_⟩
  · simp [Led, ServerTest.new, nextState, collected, TestController.new, PerfTest.new]
  · simp [ServerTest.new]

theorem Rostered.quiet (hi : Rostered t) {id : Nat} {rest : List ControllerMessage}
    (hq : t.queue = .streamTerminated id :: rest) : t.oldState = .running := by
  by_contra ho
  exact (hi.tended.fresh ho).1.quiet id (hq ▸ List.mem_cons_self)

theorem Rostered.joining (hi : Rostered t) {id : Nat} {ref : StreamWorkerRef} (hpc : t.pc = .joining id ref) :
    t.oldState = .running := by
  by_contra ho
  exact hi.unjoined ho id ref hpc

theorem collectNext_holds {pending : Map StreamWorkerRef} {i : Nat} (h : pending.lookup i = some ⟨i⟩) :
    (t.collectNext pending).holds i := by
  have hne : len pending ≠ 0 := by
    intro hz
    simp [len_eq_zero.1 hz] at h
  simpa only [holds, collectNext, if_neg hne] using h

theorem collectNext_unjoined (pending : Map StreamWorkerRef) (id : Nat) (ref : StreamWorkerRef) :
    (t.collectNext pending).pc ≠ .joining id ref := by
  by_cases h : len pending = 0 <;> simp [collectNext, h]

theorem acceptStream_holds {s i : Nat} (h : (t.createAndRegisterStreamWorker s).streams.lookup i = some ⟨i⟩) :
    (t.acceptStream s).holds i := by
  by_cases hc : len (t.createAndRegisterStreamWorker s).streams = t.totalNeededStreams <;>
    simpa only [holds, acceptStream, hc, if_true, if_false] using h

theorem acceptStream_unjoined (s id : Nat) (ref : StreamWorkerRef) : (t.acceptStream s).pc ≠ .joining id ref := by
  by_cases hc : len (t.createAndRegisterStreamWorker s).streams = t.totalNeededStreams <;> simp [acceptStream, hc]

theorem acceptStream_led {s : Nat} (hs : t.state ≠ .exchangeResults) : (t.acceptStream s).Led := by
  by_cases hc : len (t.createAndRegisterStreamWorker s).streams = t.totalNeededStreams <;>
    simp [Led, nextState, collected, acceptStream, hc, hs]

theorem afterTermination_holds {i : Nat} (h : t.streams.lookup i = some ⟨i⟩) : t.afterTermination.holds i := by
  by_cases hc : len t.streams = 0 <;> simpa only [holds, afterTermination, hc, if_true, if_false] using h

theorem holds_open (hn : t.Numbered) (hc : Collects t js) {i : Nat} {w : Worker} (hw : t.workers[i]? = some w)
    (hh : t.holds i) : t.channelOpen i = true := by
  obtain rfl := hn.ids i w hw
  cases hpc : t.pc with
  | joining id ref =>
    simp only [holds, hpc] at hh
    simp only [channelOpen, hpc, hw, Bool.decide_or, Bool.or_eq_true, decide_eq_true_eq]
    refine hh.imp_left (fun he => ?_)
    obtain ⟨v, hv, hvid⟩ := (hc.joining id ref hpc).1
    rw [he, ← hvid, hn.ids _ v hv]
  | _ => simp_all [holds, channelOpen]

/-- A worker that runs is in the hands of a controller that has not returned. -/
theorem Rostered.worker (hi : Rostered t) {i : Nat} {we : WorkerEvent} {c : TestController}
    (h : t.workerStep (!t.returned) (t.channelOpen i) i we = some c) (he : we ≠ .fail ∧ we ≠ .panic)
    (hl : t.Loads (.worker i we)) (hn : t.Numbered) (hc : Collects t js) :
    c.Tended (holds { t with toTestController := c }) (t.oldState = .running) := by
  have hholds : holds { t with toTestController := c } = t.holds := by
    funext j
    simp only [holds, workerStep_test h]
  obtain ⟨w, -, hw, -⟩ := TestController.workerStep_spec h
  rw [hholds]
  refine hi.tended.workerStep h he (holds_open hn hc hw) (fun hh hends => (hl hends).resolve_right (fun hr => ?_))
  unfold returned at hr
  split at hr
  · rename_i hpc
    simp [holds, hpc] at hh
  · cases hr

theorem manned_step (h : Step t e u) (hp : Phase t)
    (hg : t.returned = false → t.totalNeededStreams ≤ t.workers.length ∨ t.Gathers)
    (hi : t.oldState = .running → t.totalNeededStreams ≤ t.workers.length) :
    u.oldState = .running → u.totalNeededStreams ≤ u.workers.length := by
  have hkeep : u.oldState = t.oldState → u.oldState = .running → u.totalNeededStreams ≤ u.workers.length := by
    intro ho hr
    rw [PerfTest.totalNeededStreams_config (config_of_step h)]
    exact (hi (ho ▸ hr)).trans (workers_step h)
  cases h with
  | start _ hpc =>
    simp only [Phase, hpc] at hp
    exact hkeep (hp.1.trans hp.2.symm)
  | startLoad _ hpc hs =>
    intro _
    have hfull : t.totalNeededStreams ≤ t.workers.length := by
      refine (hg (by simp [returned, hpc])).resolve_right (fun hg => ?_)
      have hstate := hg.state
      simp [nextState, hpc, hs, State.gathering] at hstate
    have hlen : (t.broadcastToStreams .startLoad).workers.length = t.workers.length := by
      simpa using congrArg List.length (t.broadcast_stage .startLoad)
    simpa [hlen] using hfull
  | wait _ hpc hs =>
    rcases hp.waits hpc hs with ⟨⟨c, hs⟩, -⟩ | ⟨hs, ho⟩
    · simp [hs]
    · exact hkeep (hs.trans ho.symm)
  | worker hw => exact hkeep rfl
  | _ => exact hkeep (by simp)

theorem led_step (h : Step t e u) (hp : Phase t) (hu : u.pc ≠ .returned none) (hi : Rostered t) : u.Led := by
  have hled := hi.led
  cases h with
  | start _ hpc | announce _ hpc =>
    simp_all [Phase, Led, nextState, collected]
  | startLoad _ hpc hs => simp [Led, hs]
  | wait _ hpc hs => rcases hs with ⟨c, hs⟩ | ⟨hs, -⟩ | hs <;> simp [Led, nextState, collected, hs]
  | finish _ hpc hs => exact fun _ => hled (.inl (by simp [nextState, hpc, hs]))
  | store _ hpc | wrote hpc => simpa [Led, nextState, collected, hpc] using hled
  | writeIgnored hpc =>
    simp only [Phase, hpc] at hp
    simp [Led, nextState, collected, hp.2.1.not_ended]
  | accept hpc hq =>
    simp only [Phase, hpc] at hp
    refine acceptStream_led ?_
    rcases hp.2 with hs | hs <;> simp [hs]
  | terminated _ hq | unknown _ hq => exact fun _ => hi.quiet hq
  | joined hpc => exact fun _ => hi.joining hpc
  | collected hpc | timedOut hpc =>
    simp only [Phase, hpc] at hp
    exact fun _ => hled (.inl (by simp [nextState, hpc, hp]))
  | readResults hpc | readOther hpc | sentResults hpc => exact fun _ => hled (.inr (by simp [collected, hpc]))
  | writeFailed | sendFailed | joinFailed | readFailed => exact absurd rfl hu
  | worker hw => simpa [Led, nextState, collected, workerStep_test hw] using hled
  | guard | unguard | vanish | offer => exact hled

theorem tended_step (h : Step t e u) (he : e.unbroken = true) (hl : Loads t e) (hp : Phase t) (hn : t.Numbered)
    (hc : Collects t js)
    (ha : ∀ s rest, t.pc = .waiting → t.queue = .createStream s :: rest → t.oldState ≠ .running)
    (hu : u.pc ≠ .returned none) (hi : Rostered t) : u.Tended u.holds (u.oldState = .running) := by
  have ht := hi.tended
  cases h with
  | start _ hpc =>
    simp only [Phase, hpc] at hp
    exact ht.same rfl rfl (by simp [hp.1, hp.2]) (fun ho => (ht.fresh ho).1) (by simp [holds, hpc])
  | announce _ hpc => exact ht.same rfl rfl .rfl (fun ho => (ht.fresh ho).1) (by simp [holds, hpc])
  | startLoad _ hpc hs ho =>
    exact (ht.startLoad ho hn hs).same rfl rfl .rfl (fun hno => absurd hs hno)
      (by simp [holds, hpc])
  | wait _ hpc hs =>
    have hsame : t.state = .running ↔ t.oldState = .running := by
      rcases hp.waits hpc hs with ⟨⟨c, hs⟩, ho⟩ | ⟨hs, ho⟩ <;> simp [hs, ho]
    exact ht.same rfl rfl hsame (fun ho => (ht.fresh ho).1) (by simp [holds, hpc])
  | finish _ hpc hs =>
    refine ht.terminate (hi.led (.inl (by simp [nextState, hpc, hs]))) (fun i hh => collectNext_holds ?_)
    simpa [holds, hpc] using hh
  | store _ hpc =>
    exact ht.same rfl rfl .rfl (fun ho => (ht.fresh ho).1.same rfl rfl (fun _ h => h)) (by simp [holds, hpc])
  | wrote hpc | writeIgnored hpc => exact ht.same rfl rfl .rfl (fun ho => (ht.fresh ho).1) (by simp [holds, hpc])
  | @accept s rest hpc hq =>
    have hpop : TestController.Tended { t.toTestController with queue := rest } t.holds (t.oldState = .running) :=
      ht.same rfl rfl .rfl (fun ho => (ht.fresh ho).1.same rfl rfl (by simp [hq])) (fun _ h => h)
    have hn' : TestController.Numbered { t.toTestController with queue := rest } := hn.sub rfl (fun _ _ h => h)
    exact hpop.register (ha s rest hpc hq) hn' s (fun i hl => acceptStream_holds hl)
  | @terminated id ref rest hpc hq =>
    refine ht.same rfl rfl .rfl (fun ho => absurd (hi.quiet hq) ho) (fun i hh => ?_)
    simp only [holds, hpc, lookup_erase_iff] at hh ⊢
    exact or_iff_not_imp_left.2 (fun hne => ⟨hne, hh⟩)
  | @unknown id rest hpc hq =>
    refine ht.same rfl rfl .rfl (fun ho => absurd (hi.quiet hq) ho) (fun i hh => ?_)
    exact afterTermination_holds (by simpa only [holds, hpc] using hh)
  | @joined id ref r hpc hres =>
    refine ht.join hn (hc.joining id ref hpc).1 hres (fun ho => absurd (hi.joining hpc) ho) (fun i hh => ?_)
    simp only [holds, hpc] at hh
    exact hh.imp_right (fun hl => afterTermination_holds (by simpa using hl))
  | @collected id pending ref r hpc href hres =>
    simp only [Phase, hpc] at hp
    have hload := hi.led (.inl (by simp [nextState, hpc, hp]))
    refine ht.join hn (hc.pending pending id ref hpc href) hres (fun ho => absurd hload ho) (fun i hh => ?_)
    simp only [holds, hpc] at hh
    exact or_iff_not_imp_left.2 (fun hne => collectNext_holds (lookup_erase_iff.2 ⟨hne, hh⟩))
  | timedOut => cases he
  | readResults hpc | readOther hpc | sentResults hpc =>
    exact ht.same rfl rfl .rfl (fun ho => (ht.fresh ho).1) (by simp [holds, hpc])
  | worker hw =>
    refine hi.worker hw ?_ hl hn hc
    simpa [ServerEvent.unbroken] using he
  | guard | unguard | vanish => exact ht.same rfl rfl .rfl (fun ho => (ht.fresh ho).1) (fun _ h => h)
  | offer => exact ht.same rfl rfl .rfl (fun ho => (ht.fresh ho).1.same rfl rfl (by simp)) (fun _ h => h)
  | writeFailed | sendFailed | joinFailed | readFailed => exact absurd rfl hu

theorem unjoined_step (h : Step t e u) (hi : Rostered t) (ho : u.oldState ≠ .running) (id : Nat) (ref : StreamWorkerRef) :
    u.pc ≠ .joining id ref := by
  cases h with
  | accept => exact acceptStream_unjoined _ _ _
  | terminated _ hq | unknown _ hq => exact absurd (hi.quiet hq) ho
  | joined hpc => exact absurd (hi.joining hpc) ho
  | finish | collected | timedOut => exact collectNext_unjoined _ _ _
  | worker | guard | unguard | offer | vanish => exact hi.unjoined ho id ref
  | _ => simp

theorem rostered_step (h : Step t e u) (he : e.unbroken = true) (hl : Loads t e) (hp : Phase t) (hn : t.Numbered)
    (hc : Collects t js)
    (ha : ∀ s rest, t.pc = .waiting → t.queue = .createStream s :: rest → t.oldState ≠ .running)
    (hg : t.returned = false → t.totalNeededStreams ≤ t.workers.length ∨ t.Gathers)
    (hu : u.pc ≠ .returned none) (hi : Rostered t) : Rostered u :=
  ⟨tended_step h he hl hp hn hc ha hu hi, unjoined_step h hi, led_step h hp hu hi, manned_step h hp hg hi.manned⟩

/-- Past the drain the controller holds no worker. -/
theorem unheld (hc : t.collected.isSome = true) (i : Nat) : ¬ t.holds i := by
  unfold collected at hc
  unfold holds
  split at hc <;> simp_all

/-- Nobody is told the end of a load that has not been announced. -/
def Announces (t : ServerTest) : Prop := .setState .exchangeResults ∈ t.sent → .setState .running ∈ t.sent

theorem announces_step (h : Step t e u) (hp : Phase t) (hs : Said t) (hr : t.pc ≠ .returned none → Rostered t)
    (hi : Announces t) : Announces u := by
  cases h with
  | @wrote s k hpc =>
    simp only [Phase, hpc] at hp
    simp only [Said, hpc] at hs
    intro hm
    by_cases he : s = .exchangeResults
    · -- the load is over
      have hload := (hr (by simp [hpc])).led (.inl (by simp [nextState, hpc, he]))
      have hstate : t.state = .running := hp.1.symm.trans hload
      exact List.mem_append_left _ (hstate ▸ hs.mem (by simp [hstate]))
    · refine List.mem_append_left _ (hi ?_)
      simpa [Ne.symm he] using hm
  | sentResults => exact fun hm => List.mem_append_left _ (hi (by simpa using hm))
  | worker hw => exact hi
  | _ => simpa [Announces] using hi

theorem pc_of_failed (h : Step t e u) (hpc : t.pc = .returned none) : u.pc = .returned none := by
  cases h <;> simp_all

end ServerTest

/-- Once the load has been announced the test is in its load or past it. -/
theorem Script.loaded {cookie : String} {s : State} {ms : List ServerMessage} (h : Script cookie s ms)
    (hm : .setState .running ∈ ms) : s = .running ∨ s = .exchangeResults := by
  induction h with
  | start => cases hm
  | next _ ht ih =>
    rcases List.mem_append.1 hm with hm | hm
    · rcases ih hm with rfl | rfl
      · cases ht
        · exact .inl rfl
        · exact .inr rfl
      · cases ht
    · exact .inl (by simpa [eq_comm] using hm)

/-! ## The client -/

namespace ClientTest
variable {t u : ClientTest} {e : ClientEvent} {js : List Nat} {cookie : String}

/-- Worker `i` is listed, or in the hands of the controller. -/
def holds (t : ClientTest) (i : Nat) : Prop :=
  match t.pc with
  | .joining id _ => i = id ∨ t.streams.lookup i = some ⟨i⟩
  | .collecting pending => pending.lookup i = some ⟨i⟩
  | .sendingResults _ | .readingResults _ | .returned _ => False
  | _ => t.streams.lookup i = some ⟨i⟩

/-- The test ends after its load only. -/
def Led (t : ClientTest) : Prop := t.nextState = .exchangeResults ∨ t.exchanging = true → t.oldState = .running

/-- The client waits in `CreateStreams`, and goes on from there, with all of its
streams. -/
structure Manned (t : ClientTest) : Prop where
  waiting : ∀ c, t.pc = .selecting → t.state = .createStreams c → t.totalNeededStreams ≤ t.workers.length
  loading : t.nextState.gathering = false ∨ t.oldState = .running → t.totalNeededStreams ≤ t.workers.length

/-- Every stream of the test is accounted for, and no task is joined before the
load. -/
structure Rostered (t : ClientTest) : Prop where
  tended : t.Tended t.holds (t.oldState = .running)
  unjoined : t.oldState ≠ .running → ∀ id ref, t.pc ≠ .joining id ref
  led : t.Led
  manned : t.Manned
  settled : t.pc = .selecting → t.oldState = t.state
  begins : t.pc = .start → t.state = .testStart ∧ t.oldState = .testStart

theorem Rostered.new (cookie : String) (params : TestParameters) : Rostered (new cookie params) := by
  refine ⟨.new _ rfl, by simp [ClientTest.new], ?_, ⟨?_, ?_⟩, ?_, ?_⟩ <;>
    simp [Led, ClientTest.new, nextState, exchanging, TestController.new, PerfTest.new, State.gathering]

theorem Rostered.quiet (hi : Rostered t) {id : Nat} {rest : List ControllerMessage}
    (hq : t.queue = .streamTerminated id :: rest) : t.oldState = .running := by
  by_contra ho
  exact (hi.tended.fresh ho).1.quiet id (hq ▸ List.mem_cons_self)

theorem Rostered.joining (hi : Rostered t) {id : Nat} {ref : StreamWorkerRef} (hpc : t.pc = .joining id ref) :
    t.oldState = .running := by
  by_contra ho
  exact hi.unjoined ho id ref hpc

theorem collectNext_holds {pending : Map StreamWorkerRef} {i : Nat} (h : pending.lookup i = some ⟨i⟩) :
    (t.collectNext pending).holds i := by
  have hne : len pending ≠ 0 := by
    intro hz
    simp [len_eq_zero.1 hz] at h
  simpa only [holds, collectNext, if_neg hne] using h

theorem createStreams_holds {i : Nat} (h : t.streams.lookup i = some ⟨i⟩) : t.createStreams.holds i := by
  by_cases hc : len t.streams < t.totalNeededStreams <;> simpa only [holds, createStreams, hc, if_true, if_false] using h

theorem holds_open (hn : t.Numbered) (hc : Collects t js) {i : Nat} {w : Worker} (hw : t.workers[i]? = some w)
    (hh : t.holds i) : t.channelOpen i = true := by
  obtain rfl := hn.ids i w hw
  cases hpc : t.pc with
  | joining id ref =>
    simp only [holds, hpc] at hh
    simp only [channelOpen, hpc, hw, Bool.decide_or, Bool.or_eq_true, decide_eq_true_eq]
    refine hh.imp_left (fun he => ?_)
    obtain ⟨v, hv, hvid⟩ := (hc.joining id ref hpc).1
    rw [he, ← hvid, hn.ids _ v hv]
  | _ => simp_all [holds, channelOpen]

/-- A worker that runs is in the hands of a controller that has not returned. -/
theorem Rostered.worker (hi : Rostered t) {i : Nat} {we : WorkerEvent} {c : TestController}
    (h : t.workerStep (!t.returned) (t.channelOpen i) i we = some c) (he : we ≠ .fail ∧ we ≠ .panic)
    (hl : t.Loads (.worker i we)) (hn : t.Numbered) (hc : Collects t js) :
    c.Tended (holds { t with toTestController := c }) (t.oldState = .running) := by
  have hholds : holds { t with toTestController := c } = t.holds := by
    funext j
    simp only [holds, workerStep_test h]
  obtain ⟨w, -, hw, -⟩ := TestController.workerStep_spec h
  rw [hholds]
  refine hi.tended.workerStep h he (holds_open hn hc hw) (fun hh hends => (hl hends).resolve_right (fun hr => ?_))
  unfold returned at hr
  split at hr
  · rename_i hpc
    simp [holds, hpc] at hh
  · cases hr

theorem createStreams_pc : t.createStreams.pc = .connecting ∨
    (t.createStreams.pc = .selecting ∧ t.createStreams.oldState = t.state ∧ t.totalNeededStreams ≤ len t.streams) := by
  by_cases hc : len t.streams < t.totalNeededStreams
  · exact .inl (if_pos hc)
  · exact .inr ⟨if_neg hc, if_neg hc, by omega⟩

/-- The client has not started its load where it makes its streams. -/
theorem createStreams_fresh (hs : t.state.gathering = true) (ho : t.oldState ≠ .running) :
    t.createStreams.oldState ≠ .running := by
  have hne : t.state ≠ .running := by
    intro hr
    simp [hr, State.gathering] at hs
  by_cases hc : len t.streams < t.totalNeededStreams <;> simp [createStreams, hc, hne, ho]

theorem createStreams_led (hs : t.state.gathering = true) : t.createStreams.Led := by
  have hne : t.state ≠ .exchangeResults := by
    intro hr
    simp [hr, State.gathering] at hs
  rintro (h | h)
  · exact absurd (createStreams_nextState ▸ h) hne
  · rcases createStreams_pc (t := t) with hpc | ⟨hpc, -⟩ <;> simp [exchanging, hpc] at h

theorem Manned.create (hs : t.state.gathering = true) (ho : t.oldState ≠ .running) (hu : t.Unended) :
    Manned t.createStreams := by
  refine ⟨fun _ hpc _ => ?_, fun h => ?_⟩
  · rcases createStreams_pc (t := t) with hpc' | ⟨-, -, hfull⟩
    · rw [hpc] at hpc'
      cases hpc'
    · simpa [hu.size] using hfull
  · rcases h with h | h
    · rw [createStreams_nextState, hs] at h
      cases h
    · exact absurd h (createStreams_fresh hs ho)

/-- A step to another await that adds no reason to have all streams. -/
theorem Manned.same (hi : Manned t) (hc : u.totalNeededStreams = t.totalNeededStreams)
    (hw : u.workers.length = t.workers.length) (hpc : u.pc ≠ .selecting) (hn : u.nextState = t.nextState)
    (ho : u.oldState = t.oldState) : Manned u := by
  refine ⟨fun _ h => absurd h hpc, fun h => ?_⟩
  rw [hc, hw]
  exact hi.loading (by rwa [← hn, ← ho])

/-- What is known where the client makes its streams. -/
theorem creating (hg : Gathering cookie t) (hpc : t.pc = .loopTop ∨ t.pc = .connecting)
    (hs : t.state.gathering = true) : t.oldState ≠ .running ∧ t.Unended := by
  have hr : t.returned = false := by rcases hpc with hpc | hpc <;> simp [returned, hpc]
  have hn : t.nextState = t.state := by rcases hpc with hpc | hpc <;> simp [nextState, hpc]
  exact (hg.early hr (hn ▸ hs)).2

theorem connecting_state (hg : Gathering cookie t) (hpc : t.pc = .connecting) : t.state.gathering = true := by
  simpa [nextState, hpc] using (hg.connecting hpc).1

theorem manned_step (h : Step t e u) (hg : Gathering cookie t) (hh : Hears cookie t e) (hu : u.pc ≠ .returned none)
    (hi : Rostered t) : Manned u := by
  have hm := hi.manned
  have hlen : ∀ m, (t.broadcastToStreams m).workers.length = t.workers.length := by
    intro m
    simpa using congrArg List.length (t.broadcast_stage m)
  cases h with
  | start hpc =>
    obtain ⟨hs, ho⟩ := hi.begins hpc
    exact hm.same rfl rfl (by simp) (by simp [nextState, hpc]) (hs.trans ho.symm)
  | create hpc hs =>
    have hgather : t.state.gathering = true := by simp [hs, State.gathering]
    obtain ⟨ho, hue⟩ := creating hg (.inl hpc) hgather
    exact .create hgather ho hue
  | @connected stream hpc =>
    have hgather := connecting_state hg hpc
    obtain ⟨ho, hue⟩ := creating hg (.inr hpc) hgather
    refine .create hgather ?_ ?_
    · exact ho
    · exact hue.register hg.ranked.toNumbered stream
  | startLoad hpc hs =>
    have hfull := hm.loading (.inl (by simp [nextState, hpc, hs, State.gathering]))
    exact ⟨fun c _ h => absurd (hs.symm.trans h) (by simp), fun _ => by simpa [hlen] using hfull⟩
  | select hpc hs =>
    refine ⟨fun c _ h => ?_, fun h => hm.loading ?_⟩
    · rcases hs with hs | ⟨hs, -⟩ | hs <;> cases hs.symm.trans h
    · rcases hs with hs | ⟨hs, ho⟩ | hs
      · simp [nextState, hs, State.gathering] at h
      · exact .inr ho
      · exact .inl (by simp [nextState, hpc, hs, State.gathering])
  | finish hpc =>
    exact hm.same rfl (by simp [hlen]) (by by_cases hc : len t.streams = 0 <;> simp [collectNext, hc])
      ((collectNext_nextState _).trans (by simp [nextState, hpc])) rfl
  | collected hpc | timedOut hpc =>
    exact hm.same (by simp [PerfTest.totalNeededStreams]) (by simp) (by simp only [collectNext]; split <;> simp)
      ((collectNext_nextState _).trans (by simp [nextState, hpc])) rfl
  | @told s hpc =>
    refine ⟨by simp, fun h => ?_⟩
    obtain ⟨s', hs', ht⟩ := hh _ rfl hpc
    obtain rfl := ServerMessage.setState.inj hs'
    rw [show t.nextState = t.state by simp [nextState, hpc]] at ht
    by_cases hs : t.state.gathering = true
    · -- only from `CreateStreams` it gets further
      cases hst : t.state with
      | createStreams c => exact hm.waiting c hpc hst
      | testStart =>
        rw [hst] at ht
        cases ht
        rcases h with h | h
        · cases h
        · have hold : t.oldState = .running := h
          rw [hi.settled hpc, hst] at hold
          cases hold
      | _ => simp [hst, State.gathering] at hs
    · exact hm.loading (.inl (by simpa [nextState, hpc] using hs))
  | worker hw =>
    obtain ⟨_, _, _, _, hws, ht, -⟩ := TestController.workerStep_spec hw
    have htotal := PerfTest.totalNeededStreams_config (congrArg PerfTest.config ht)
    refine ⟨fun c hpc hs => ?_, fun h => ?_⟩
    · simp only [ht] at hs
      simpa [htotal, hws] using hm.waiting c hpc hs
    · simp only [nextState, ht] at h
      simpa [htotal, hws] using hm.loading h
  | intruded | failed | denied | sendFailed | joinFailed | readOther => exact absurd rfl hu
  | joined hpc => exact hm.same (by simp [PerfTest.totalNeededStreams]) (by simp) (by simp) (by simp [nextState, hpc]) rfl
  | terminated hpc | unknown hpc | surprised hpc | store hpc | sentResults hpc | readResults hpc =>
    exact hm.same rfl rfl (by simp) (by simp [nextState, hpc]) rfl

theorem led_step (h : Step t e u) (hg : Gathering cookie t)
    (hh : e = .read (.ok (.setState .exchangeResults)) → t.pc = .selecting → t.state = .running)
    (hu : u.pc ≠ .returned none) (hi : Rostered t) : u.Led := by
  have hled := hi.led
  cases h with
  | start hpc => simp [Led, nextState, exchanging, (hi.begins hpc).1]
  | create hpc hs => exact createStreams_led (by simp [hs, State.gathering])
  | connected hpc =>
    have hgather := connecting_state hg hpc
    exact createStreams_led hgather
  | startLoad hpc hs => simp [Led, hs]
  | select hpc hs => rcases hs with hs | ⟨hs, -⟩ | hs <;> simp [Led, nextState, exchanging, hs]
  | finish hpc hs => exact fun _ => hled (.inl (by simp [nextState, hpc, hs]))
  | store hpc | surprised hpc => simpa [Led, nextState, exchanging, hpc] using hled
  | @told s hpc =>
    rintro (h | h)
    · obtain rfl : s = .exchangeResults := h
      exact (hi.settled hpc).trans (hh rfl hpc)
    · simp [exchanging] at h
  | terminated _ hq | unknown _ hq => exact fun _ => hi.quiet hq
  | joined hpc => exact fun _ => hi.joining hpc
  | collected hpc | timedOut hpc | sentResults hpc | readResults hpc => exact fun _ => hled (.inr (by simp [exchanging, hpc]))
  | worker hw => simpa [Led, nextState, exchanging, workerStep_test hw] using hled
  | intruded | failed | denied | sendFailed | joinFailed | readOther => exact absurd rfl hu

theorem tended_step (h : Step t e u) (he : e.unbroken = true) (hl : Loads t e) (hg : Gathering cookie t)
    (hc : Collects t js) (hu : u.pc ≠ .returned none) (hi : Rostered t) :
    u.Tended u.holds (u.oldState = .running) := by
  have ht := hi.tended
  have hn := hg.ranked.toNumbered
  cases h with
  | start hpc =>
    obtain ⟨hs, ho⟩ := hi.begins hpc
    exact ht.same rfl rfl (by simp [hs, ho]) (fun ho => (ht.fresh ho).1) (by simp [holds, hpc])
  | create hpc hs =>
    have hgather : t.state.gathering = true := by simp [hs, State.gathering]
    obtain ⟨ho, -⟩ := creating hg (.inl hpc) hgather
    exact ht.same rfl rfl (iff_of_false (createStreams_fresh hgather ho) ho) (fun ho => (ht.fresh ho).1)
      (fun i hh => createStreams_holds (by simpa [holds, hpc] using hh))
  | @connected stream hpc =>
    have hgather := connecting_state hg hpc
    obtain ⟨ho, -⟩ := creating hg (.inr hpc) hgather
    have hreg := ht.register ho hn stream (fun i hl => hl)
    refine hreg.same rfl rfl (iff_of_false (createStreams_fresh ?_ ?_) ho) (fun ho => (hreg.fresh ho).1)
      (fun i hh => createStreams_holds hh)
    · exact hgather
    · exact ho
  | startLoad hpc hs ho =>
    exact (ht.startLoad ho hn hs).same rfl rfl .rfl (fun hno => absurd hs hno)
      (by simp [holds, hpc])
  | select hpc hs =>
    have hsame : t.state = .running ↔ t.oldState = .running := by
      rcases hs with hs | ⟨hs, ho⟩ | hs
      · have ho := (creating hg (.inl hpc) (by simp [hs, State.gathering])).1
        simp [hs, ho]
      · simp [hs, ho]
      · -- nobody announces this state
        have hscript := hg.script (by simp [returned, hpc])
        simp only [nextState, hpc, hs] at hscript
        exact absurd rfl hscript.not_displayResults
    exact ht.same rfl rfl hsame (fun ho => (ht.fresh ho).1) (by simp [holds, hpc])
  | finish hpc hs =>
    refine ht.terminate (hi.led (.inl (by simp [nextState, hpc, hs]))) (fun i hh => collectNext_holds ?_)
    simpa [holds, hpc] using hh
  | store hpc =>
    exact ht.same rfl rfl .rfl (fun ho => (ht.fresh ho).1.same rfl rfl (fun _ h => h)) (by simp [holds, hpc])
  | told hpc | surprised hpc | sentResults hpc | readResults hpc =>
    exact ht.same rfl rfl .rfl (fun ho => (ht.fresh ho).1) (by simp [holds, hpc])
  | @terminated id ref rest hpc hq =>
    refine ht.same rfl rfl .rfl (fun ho => absurd (hi.quiet hq) ho) (fun i hh => ?_)
    simp only [holds, hpc, lookup_erase_iff] at hh ⊢
    exact or_iff_not_imp_left.2 (fun hne => ⟨hne, hh⟩)
  | unknown hpc hq => exact ht.same rfl rfl .rfl (fun ho => absurd (hi.quiet hq) ho) (by simp [holds, hpc])
  | @joined id ref r hpc hres =>
    refine ht.join hn (hc.joining id ref hpc).1 hres (fun ho => absurd (hi.joining hpc) ho) (fun i hh => ?_)
    simp only [holds, hpc] at hh
    exact hh.imp_right (fun hl => by simpa [holds] using hl)
  | @collected id pending ref r hpc href hres =>
    have hload := hi.led (.inr (by simp [exchanging, hpc]))
    refine ht.join hn (hc.pending pending id ref hpc href) hres (fun ho => absurd hload ho) (fun i hh => ?_)
    simp only [holds, hpc] at hh
    exact or_iff_not_imp_left.2 (fun hne => collectNext_holds (lookup_erase_iff.2 ⟨hne, hh⟩))
  | timedOut => cases he
  | worker hw =>
    refine hi.worker hw ?_ hl hn hc
    simpa [ClientEvent.unbroken] using he
  | intruded | failed | denied | sendFailed | joinFailed | readOther => exact absurd rfl hu

theorem unjoined_step (h : Step t e u) (hi : Rostered t) (ho : u.oldState ≠ .running) (id : Nat) (ref : StreamWorkerRef) :
    u.pc ≠ .joining id ref := by
  cases h with
  | create | connected => exact createStreams_unjoined _ _
  | terminated _ hq | unknown _ hq => exact absurd (hi.quiet hq) ho
  | joined hpc => exact absurd (hi.joining hpc) ho
  | finish | collected | timedOut =>
    simp only [collectNext]
    split <;> simp
  | worker => exact hi.unjoined ho id ref
  | _ => simp

theorem settled_step (h : Step t e u) (hi : Rostered t) (hpc : u.pc = .selecting) : u.oldState = u.state := by
  cases h with
  | create | connected =>
    rcases createStreams_pc with hpc' | ⟨-, ho, -⟩
    · rw [hpc] at hpc'
      cases hpc'
    · exact ho
  | startLoad | select => rfl
  | finish | collected | timedOut =>
    simp only [collectNext] at hpc
    split at hpc <;> cases hpc
  | worker hw => simpa [workerStep_test hw] using hi.settled hpc
  | _ => cases hpc

theorem begins_step (h : Step t e u) (hi : Rostered t) (hpc : u.pc = .start) :
    u.state = .testStart ∧ u.oldState = .testStart := by
  cases h with
  | create | connected => rcases createStreams_pc with hpc' | ⟨hpc', -⟩ <;> cases hpc.symm.trans hpc'
  | finish | collected | timedOut =>
    simp only [collectNext] at hpc
    split at hpc <;> cases hpc
  | worker hw => simpa [workerStep_test hw] using hi.begins hpc
  | _ => cases hpc

theorem rostered_step (h : Step t e u) (he : e.unbroken = true) (hl : Loads t e) (hg : Gathering cookie t)
    (hc : Collects t js) (hh : Hears cookie t e)
    (hx : e = .read (.ok (.setState .exchangeResults)) → t.pc = .selecting → t.state = .running)
    (hu : u.pc ≠ .returned none) (hi : Rostered t) : Rostered u :=
  ⟨tended_step h he hl hg hc hu hi, unjoined_step h hi, led_step h hg hx hu hi, manned_step h hg hh hu hi,
    settled_step h hi, begins_step h hi⟩

theorem pc_of_failed (h : Step t e u) (hpc : t.pc = .returned none) : u.pc = .returned none := by
  cases h <;> simp_all

/-- Past the drain the controller holds no worker. -/
theorem unheld (hc : t.collected.isSome = true) (i : Nat) : ¬ t.holds i := by
  unfold collected at hc
  unfold holds
  split at hc <;> simp_all

theorem exchanging_of_collected (hc : t.collected.isSome = true) : t.exchanging = true ∧ t.pc ≠ .returned none := by
  unfold collected at hc
  unfold exchanging
  split at hc <;> simp_all

end ClientTest

end Netperf
