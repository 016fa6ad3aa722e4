import Netperf.Lib.Lists
import Netperf.ServerTest
/-!
# The notices of terminated workers

Each worker task that returns owes the controller one `StreamTerminated`. As
long as every notice finds room in the channel, none is lost: the notices
queued or handled count the workers that returned, and a stream stays in the
map only while its worker runs or its notice is queued.
-/

namespace Netperf.ServerTest

open Maps Runs

/-- Some step of worker `i` makes `run_worker` return. -/
def returns (t : ServerTest) (i : Nat) (e : WorkerEvent) : Bool :=
  (t.workers[i]?).any (fun w => (w.step (t.channelOpen i) e).any Worker.returned)

/-- A worker that returns finds the controller's channel with room. -/
def RoomForNotice (t : ServerTest) : ServerEvent → Prop
  | .worker i e => t.returns i e = true → t.queue.length < internalProtBuffer
  | _ => True

/-- The number of notices with this id the controller has handled or will. -/
def notices (t : ServerTest) (id : Nat) : Nat := (t.handled ++ t.queue).count (.streamTerminated id)

/-- The number of workers with this id that have returned. -/
def returnedWorkers (t : ServerTest) (id : Nat) : Nat := t.workers.countP (fun w => w.id = id ∧ w.returned = true)

/-! ## The invariant -/

/-- No notice is lost, and a stream whose worker returned waits for its notice. -/
structure Kept (handled queue : List ControllerMessage) (workers : List Worker) (streams : Map StreamWorkerRef) :
    Prop where
  counted : ∀ id, (handled ++ queue).count (.streamTerminated id) =
    workers.countP (fun w => w.id = id ∧ w.returned = true)
  listed : ∀ id ref, streams.lookup id = some ref → ∃ w, workers[ref.task]? = some w ∧ w.id = id ∧
    (w.returned = true → ControllerMessage.streamTerminated id ∈ queue)

section
variable {handled queue : List ControllerMessage} {workers : List Worker} {streams : Map StreamWorkerRef}

theorem Kept.drain (h : Kept handled queue workers streams) : Kept handled queue workers ∅ :=
  ⟨h.counted, fun id ref hl => by simp at hl⟩

theorem Kept.push (h : Kept handled queue workers streams) (s : Nat) :
    Kept handled (queue ++ [.createStream s]) workers streams := by
  constructor
  · intro id
    rw [← h.counted id]
    simp [List.count_append]
  · intro id ref hl
    obtain ⟨w, hw, hid, hr⟩ := h.listed id ref hl
    exact ⟨w, hw, hid, fun hret => List.mem_append_left _ (hr hret)⟩

/-- Taking a message other than a notice for a listed stream. -/
theorem Kept.pop {m : ControllerMessage} (h : Kept handled (m :: queue) workers streams)
    (hm : ∀ id, m = .streamTerminated id → streams.lookup id = none) : Kept (handled ++ [m]) queue workers streams := by
  constructor
  · intro id
    rw [← h.counted id]
    simp
  · intro id ref hl
    obtain ⟨w, hw, hid, hr⟩ := h.listed id ref hl
    refine ⟨w, hw, hid, fun hret => ?_⟩
    rcases List.mem_cons.1 (hr hret) with he | he
    · rw [hm id he.symm] at hl
      cases hl
    · exact he

theorem Kept.erase (h : Kept handled queue workers streams) (id : Nat) :
    Kept handled queue workers (streams.erase id) :=
  ⟨h.counted, fun id' ref hl => h.listed id' ref (lookup_erase_iff.1 hl).2⟩

/-- Taking the notice of a stream and removing the stream. -/
theorem Kept.popErase {id : Nat} (h : Kept handled (.streamTerminated id :: queue) workers streams) :
    Kept (handled ++ [.streamTerminated id]) queue workers (streams.erase id) := by
  apply (h.erase id).pop
  rintro _ ⟨⟩
  exact Finmap.lookup_erase _ _

theorem Kept.broadcast {c : TestController} (h : Kept handled queue c.workers streams) (m : WorkerMessage) :
    Kept handled queue (c.broadcastToStreams m).workers streams := by
  have key : ∀ (l : List Worker) (id : Nat), l.countP (fun w => w.id = id ∧ w.returned = true) =
      (l.map Worker.stage).countP (fun x => x.1 = id ∧ x.2.2.2.returned = true) := by
    intro l id
    rw [List.countP_map]
    rfl
  constructor
  · intro id
    rw [h.counted id, key, key, c.broadcast_stage]
  · intro id ref hl
    obtain ⟨w, hw, hid, hr⟩ := h.listed id ref hl
    obtain ⟨w', hw', hs⟩ := c.broadcast_keeps hw
    simp only [Worker.stage, Prod.mk.injEq] at hs
    exact ⟨w', hw', hs.1.trans hid, fun hret => hr (by rwa [Worker.returned, ← hs.2.2.2])⟩

theorem Kept.register (c : TestController) (h : Kept handled queue c.workers c.streams) (s : Nat) :
    Kept handled queue (c.createAndRegisterStreamWorker s).workers (c.createAndRegisterStreamWorker s).streams := by
  simp only [TestController.createAndRegisterStreamWorker]
  constructor
  · intro id
    rw [h.counted id]
    simp [List.countP_append, Worker.returned, WorkerPc.returned]
  · intro id ref hl
    rcases lookup_insert_iff.1 hl with ⟨rfl, rfl⟩ | ⟨_, hl⟩
    · exact ⟨_, List.getElem?_concat_length, rfl, by simp [Worker.returned, WorkerPc.returned]⟩
    · obtain ⟨w, hw, hid, hr⟩ := h.listed id ref hl
      have hlt : ref.task < c.workers.length := by
        by_contra hge
        rw [List.getElem?_eq_none (by omega)] at hw
        cases hw
      exact ⟨w, by rw [List.getElem?_append_left hlt, hw], hid, hr⟩

theorem Kept.set {i : Nat} {w w' : Worker} (h : Kept handled queue workers streams) (hw : workers[i]? = some w)
    (hid : w'.id = w.id) (hd : w.returned = false) (hr : w'.returned = false) :
    Kept handled queue (workers.set i w') streams := by
  obtain ⟨hi, rfl⟩ := List.getElem?_eq_some_iff.1 hw
  constructor
  · intro id
    rw [h.counted id, List.countP_set hi]
    simp [hd, hr]
  · intro id ref hl
    obtain ⟨v, hv, hvid, hvr⟩ := h.listed id ref hl
    obtain ⟨v', hv', ⟨-, rfl, rfl⟩ | ⟨-, rfl⟩⟩ := Lists.exists_set_place hw hv
    · exact ⟨_, hv', hid.trans hvid, by simp [hr]⟩
    · exact ⟨_, hv', hvid, hvr⟩

/-- A worker returns and its notice is queued. -/
theorem Kept.setReturned {i : Nat} {w w' : Worker} (h : Kept handled queue workers streams)
    (hw : workers[i]? = some w) (hid : w'.id = w.id) (hd : w.returned = false) (hr : w'.returned = true) :
    Kept handled (queue ++ [.streamTerminated w.id]) (workers.set i w') streams := by
  obtain ⟨hi, rfl⟩ := List.getElem?_eq_some_iff.1 hw
  constructor
  · intro id
    rw [← List.append_assoc, List.count_append, h.counted id, List.countP_set hi]
    by_cases he : workers[i].id = id <;> simp [hd, hr, hid, he]
  · intro id ref hl
    obtain ⟨v, hv, hvid, hvr⟩ := h.listed id ref hl
    obtain ⟨v', hv', ⟨-, rfl, rfl⟩ | ⟨-, rfl⟩⟩ := Lists.exists_set_place hw hv
    · exact ⟨_, hv', hid.trans hvid, fun _ => by simp [hvid]⟩
    · exact ⟨_, hv', hvid, fun hret => List.mem_append_left _ (hvr hret)⟩

end

/-! ## Every event keeps it -/

theorem kept_step {t u : ServerTest} {e : ServerEvent} (h : Step t e u) (hc : RoomForNotice t e)
    (hi : t.returned = false → Kept t.handled t.queue t.workers t.streams) :
    u.returned = false → Kept u.handled u.queue u.workers u.streams := by
  intro hu
  have hk := hi (returned_of_step h hu)
  cases h with
  | startLoad => exact hk.broadcast _
  | finish => exact (hk.broadcast _).drain
  | accept _ hq =>
    rw [hq] at hk
    exact Kept.register { t.toTestController with queue := _ } (hk.pop (by simp)) _
  | terminated _ hq hl =>
    rw [hq] at hk
    exact hk.popErase
  | unknown _ hq hl =>
    rw [hq] at hk
    exact hk.pop (by rintro _ ⟨⟩; exact hl)
  | joined | collected => simpa [afterTermination, collectNext] using hk
  | worker hw =>
    rename_i i e c
    obtain ⟨w, w', hg, hs, ⟨hr, -, rfl⟩ | ⟨hr, rfl⟩⟩ := TestController.workerStep_cases hw
    · obtain ⟨hid, -, -, hd⟩ := Worker.step_spec hs
      exact hk.setReturned hg hid (Worker.not_returned_of_not_done hd) hr
    · obtain ⟨hid, -, -, hd⟩ := Worker.step_spec hs
      apply hk.set hg hid (Worker.not_returned_of_not_done hd)
      -- a worker that returned would have found room
      by_contra hret
      have hret : w'.returned = true := by simpa using hret
      have hroom := hc (by simp [returns, hg, hs, hret])
      have hfull := hr hret (by simp [returned_of_step (.worker hw) hu])
      omega
  | offer => exact hk.push _
  | _ => exact hk

theorem kept_run {cookie : String} {params : TestParameters} {es : List ServerEvent} {t : ServerTest}
    (h : Run step RoomForNotice (new cookie params) es t) :
    t.returned = false → Kept t.handled t.queue t.workers t.streams := by
  refine h.inv (fun t => t.returned = false → Kept t.handled t.queue t.workers t.streams) ?_ ?_
  · intro _
    exact ⟨fun id => rfl, fun id ref hl => by simp [new, TestController.new, PerfTest.new] at hl⟩
  · intro t e u hi hc hs
    exact kept_step (step_cases hs) hc hi

/-! ## No termination is lost -/

/-- While the controller runs: the notices queued or handled are those of the
workers that returned, one each, and once all workers have returned and the
channel is empty no stream is left. -/
def TerminationsKept (t : ServerTest) : Prop :=
  t.returned = false → (∀ id, t.notices id = t.returnedWorkers id) ∧
    ((∀ w ∈ t.workers, w.returned = true) → t.queue = [] → t.streams = ∅)

/-- No worker termination is lost in a run whose every returning worker finds
room in the controller's channel. -/
theorem terminations_kept {cookie : String} {params : TestParameters} {es : List ServerEvent} {t : ServerTest}
    (h : Run step RoomForNotice (new cookie params) es t) : TerminationsKept t := by
  intro hr
  have hk := kept_run h hr
  refine ⟨hk.counted, fun hall hq => ?_⟩
  by_contra hne
  obtain ⟨id, ref, hl⟩ := exists_lookup_of_ne_empty hne
  obtain ⟨w, hw, hid, hret⟩ := hk.listed id ref hl
  have hmem := hret (hall w (List.mem_of_getElem? hw))
  rw [hq] at hmem
  cases hmem

instance (t : ServerTest) (e : ServerEvent) : Decidable (RoomForNotice t e) := by
  cases e <;> unfold RoomForNotice <;> infer_instance

/-- The server announces `CreateStreams`. -/
def announceRun : List ServerEvent := [.lock, .lock, .write true, .lock, .lock]

/-- All `n` data streams connect, each registered before the next one comes,
and the load starts. -/
def connectRun (n : Nat) : List ServerEvent :=
  (List.range (n - 1)).flatMap (fun i => [.guard, .offer i, .recv, .lock]) ++
    [.guard, .offer (n - 1), .recv, .write true, .lock, .lock]

/-- All `n` receiving workers run and return, before the controller's next turn. -/
def loadRun (n : Nat) : List ServerEvent :=
  (List.range n).flatMap (fun i => [.worker i .start, .worker i .message]) ++
    (List.range n).flatMap (fun i => [.worker i (.stop ⟨false, 10000, 131072, 1, none⟩), .worker i .drained])

/-- The controller handles `n` notices, and waits again after each. -/
def joinRun (n : Nat) : List ServerEvent := (List.range n).flatMap (fun _ => [.recv, .join, .lock])

/-- Five workers that return at once all find room. -/
theorem terminations_kept_five : ∃ es t, Run step RoomForNotice (new "c" (uploadParams 5)) es t ∧
    (t.workers.length = 5 ∧ t.workers.all Worker.returned = true ∧ t.queue.length = 5) ∧ TerminationsKept t := by
  obtain ⟨t, hrun, ht⟩ := exists_run_of_exec step RoomForNotice (new "c" (uploadParams 5))
    (announceRun ++ connectRun 5 ++ loadRun 5)
    (fun t => t.workers.length = 5 ∧ t.workers.all Worker.returned = true ∧ t.queue.length = 5) (by decide +kernel)
  exact ⟨_, t, hrun, by simpa using ht, terminations_kept hrun⟩

/-- Six workers return at once: the sixth notice finds the channel full. The
controller then waits for ever on an empty channel with a stream in its map. -/
theorem termination_lost : ∃ t, Reach step (new "c" (uploadParams 6)) t ∧ ¬ TerminationsKept t := by
  obtain ⟨t, hr, ht⟩ := exists_of_exec step (new "c" (uploadParams 6))
    (announceRun ++ connectRun 6 ++ loadRun 6 ++ joinRun 5)
    (fun t => !t.returned ∧ t.workers.all Worker.returned ∧ t.queue = [] ∧ len t.streams = 1 ∧ t.pc = .waiting)
    (by decide +kernel)
  simp only [Bool.not_eq_true', List.all_eq_true, decide_eq_true_eq] at ht
  obtain ⟨h1, h2, h3, h4, -⟩ := ht
  refine ⟨t, hr, fun hk => ?_⟩
  have he := (hk h1).2 h2 h3
  rw [he] at h4
  cases h4

end Netperf.ServerTest
