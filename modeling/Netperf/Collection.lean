import Netperf.Registration
import Netperf.Notices
import Netperf.ClientTest
/-!
# The results of one end

A worker's result reaches the results of its end when its task is joined: after
its notice, or in the final drain. As long as workers have distinct ids the
results have an entry for exactly the workers that were joined with `Ok`.
-/

namespace Netperf

open Maps Runs Lists

namespace TestController
variable {c d : TestController} {js : List Nat} {held held' : Nat → Nat → Prop}

/-- The ref stands for the worker with this id. -/
def Owns (c : TestController) (id : Nat) (ref : StreamWorkerRef) : Prop :=
  ∃ w, c.workers[ref.task]? = some w ∧ w.id = id

/-- The streams in the map stand for their workers. -/
def Listed (c : TestController) : Prop := ∀ id ref, c.streams.lookup id = some ref → c.Owns id ref

/-- What the controller has kept of the tasks it has joined, `js`. -/
structure Recorded (c : TestController) (js : List Nat) : Prop where
  listed : c.Listed
  noticed : ∀ id, .streamTerminated id ∈ c.queue → ∃ w ∈ c.workers, w.id = id ∧ w.returned = true
  finished : ∀ i ∈ js, ∃ w, c.workers[i]? = some w ∧ w.isDone = true
  entries : ∀ id stats, c.streamResults.lookup id = some stats ↔
    ∃ i ∈ js, ∃ w, c.workers[i]? = some w ∧ w.id = id ∧ w.pc = .done (.ok stats)

theorem Listed.new (test : PerfTest) (h : test.streams = ∅) : Listed (TestController.new test) := by
  simp [Listed, TestController.new, h]

theorem Recorded.new (test : PerfTest) (h : test.streams = ∅) : Recorded (TestController.new test) [] :=
  ⟨.new test h, by simp [TestController.new], by simp, by simp [TestController.new]⟩

theorem Owns.same (h : c.workers.map Worker.stage = d.workers.map Worker.stage) {id : Nat} {ref : StreamWorkerRef}
    (ho : c.Owns id ref) : d.Owns id ref := by
  obtain ⟨w, hw, hid⟩ := ho
  obtain ⟨v, hv, hvw⟩ := getElem?_of_map_eq h hw
  exact ⟨v, hv, (congrArg Prod.fst hvw).trans hid⟩

theorem Listed.sub (h : Listed c) (hw : d.workers.map Worker.stage = c.workers.map Worker.stage)
    (hs : ∀ id ref, d.streams.lookup id = some ref → c.streams.lookup id = some ref) : Listed d :=
  fun id ref hl => (h id ref (hs id ref hl)).same hw.symm

/-- A change that leaves workers and results alone, and brings no stream and no
notice. -/
theorem Recorded.sub (h : Recorded c js) (hw : d.workers.map Worker.stage = c.workers.map Worker.stage)
    (hs : ∀ id ref, d.streams.lookup id = some ref → c.streams.lookup id = some ref)
    (hq : ∀ id, .streamTerminated id ∈ d.queue → .streamTerminated id ∈ c.queue)
    (hr : d.streamResults = c.streamResults) : Recorded d js := by
  have hback : ∀ {i : Nat} {w : Worker}, c.workers[i]? = some w →
      ∃ v, d.workers[i]? = some v ∧ v.id = w.id ∧ v.pc = w.pc := by
    intro i w hi
    obtain ⟨v, hv, hvw⟩ := getElem?_of_map_eq hw.symm hi
    exact ⟨v, hv, congrArg Prod.fst hvw, congrArg (fun x => x.2.2.2) hvw⟩
  refine ⟨h.listed.sub hw hs, ?_, ?_, ?_⟩
  · intro id hn
    obtain ⟨w, hm, hid, hret⟩ := h.noticed id (hq id hn)
    obtain ⟨i, hi⟩ := List.getElem?_of_mem hm
    obtain ⟨v, hv, hvid, hpc⟩ := hback hi
    exact ⟨v, List.mem_of_getElem? hv, hvid.trans hid, by rwa [Worker.returned, hpc]⟩
  · intro i hi
    obtain ⟨w, hget, hd⟩ := h.finished i hi
    obtain ⟨v, hv, -, hpc⟩ := hback hget
    exact ⟨v, hv, by rwa [Worker.isDone, hpc]⟩
  · intro id stats
    rw [hr, h.entries]
    constructor
    · rintro ⟨i, hi, w, hget, hid, hpc⟩
      obtain ⟨v, hv, hvid, hvpc⟩ := hback hget
      exact ⟨i, hi, v, hv, hvid.trans hid, hvpc.trans hpc⟩
    · rintro ⟨i, hi, w, hget, hid, hpc⟩
      obtain ⟨v, hv, hvw⟩ := getElem?_of_map_eq hw hget
      exact ⟨i, hi, v, hv, (congrArg Prod.fst hvw).trans hid, (congrArg (fun x => x.2.2.2) hvw).trans hpc⟩

theorem Owns.register {id : Nat} {ref : StreamWorkerRef} (h : c.Owns id ref) (s : Nat) :
    (c.createAndRegisterStreamWorker s).Owns id ref := by
  obtain ⟨w, hw, hid⟩ := h
  exact ⟨w, getElem?_concat_iff.2 (.inl hw), hid⟩

theorem Listed.register (h : Listed c) (s : Nat) : Listed (c.createAndRegisterStreamWorker s) := by
  intro id ref hl
  rcases lookup_insert_iff.1 hl with ⟨rfl, rfl⟩ | ⟨-, hl⟩
  · exact ⟨_, getElem?_concat_iff.2 (.inr ⟨rfl, rfl⟩), rfl⟩
  · exact (h id ref hl).register s

theorem Recorded.register (h : Recorded c js) (s : Nat) : Recorded (c.createAndRegisterStreamWorker s) js := by
  refine ⟨h.listed.register s, ?_, ?_, ?_⟩
  · intro id hn
    obtain ⟨w, hm, hw⟩ := h.noticed id hn
    exact ⟨w, List.mem_append_left _ hm, hw⟩
  · intro i hi
    obtain ⟨w, hget, hd⟩ := h.finished i hi
    exact ⟨w, getElem?_concat_iff.2 (.inl hget), hd⟩
  · intro id stats
    refine (h.entries id stats).trans (exists_congr fun i => and_congr_right fun hi => ?_)
    -- a joined task is an old one
    obtain ⟨w, hget, -⟩ := h.finished i hi
    have hsame : (c.createAndRegisterStreamWorker s).workers[i]? = c.workers[i]? := by
      rw [hget]
      exact getElem?_concat_iff.2 (.inl hget)
    rw [hsame]

/-- The worker that takes a step has not been joined. -/
theorem Recorded.not_joined (h : Recorded c js) {i : Nat} {w : Worker} (hw : c.workers[i]? = some w)
    (hd : w.isDone = false) : i ∉ js := by
  intro hi
  obtain ⟨v, hv, hvd⟩ := h.finished i hi
  rw [hw, Option.some.injEq] at hv
  rw [hv, hvd] at hd
  cases hd

theorem Owns.workerStep {alive o : Bool} {i : Nat} {e : WorkerEvent} (hs : c.workerStep alive o i e = some d) {id : Nat}
    {ref : StreamWorkerRef} (h : c.Owns id ref) : d.Owns id ref := by
  obtain ⟨w, w', hw, hstep, hd, -⟩ := workerStep_spec hs
  obtain ⟨v, hv, hid⟩ := h
  unfold Owns
  simp only [hd, getElem?_set_iff (lt_of_getElem? hw)]
  by_cases he : ref.task = i
  · subst he
    rw [hw, Option.some.injEq] at hv
    subst hv
    exact ⟨w', .inl ⟨rfl, rfl⟩, (Worker.step_spec hstep).1.trans hid⟩
  · exact ⟨v, .inr ⟨he, hv⟩, hid⟩

theorem Listed.workerStep {alive o : Bool} {i : Nat} {e : WorkerEvent} (h : Listed c)
    (hs : c.workerStep alive o i e = some d) : Listed d := by
  obtain ⟨-, -, -, -, -, ht, -⟩ := workerStep_spec hs
  intro id ref hl
  rw [ht] at hl
  exact (h id ref hl).workerStep hs

/-- What is over stays as it is. -/
theorem taskResult_workerStep {alive o : Bool} {i : Nat} {e : WorkerEvent} (hs : c.workerStep alive o i e = some d)
    {ref : StreamWorkerRef} {r : TaskResult} (h : c.taskResult ref = some r) : d.taskResult ref = some r := by
  obtain ⟨w, w', hw, hstep, hd, -⟩ := workerStep_spec hs
  have hne : ref.task ≠ i := by
    rintro rfl
    have hrun := (Worker.step_spec hstep).2.2.2
    simp [Worker.isDone, WorkerPc.isDone, pc_of_taskResult hw h] at hrun
  unfold taskResult
  rwa [hd, List.getElem?_set_ne (Ne.symm hne)]

theorem Recorded.workerStep {alive o : Bool} {i : Nat} {e : WorkerEvent} (h : Recorded c js)
    (hs : c.workerStep alive o i e = some d) : Recorded d js := by
  obtain ⟨w, w', hw, hstep, hd, -, -⟩ := workerStep_spec hs
  obtain ⟨hid, -, -, hrun⟩ := Worker.step_spec hstep
  have hnj := h.not_joined hw hrun
  have hlt := lt_of_getElem? hw
  refine ⟨h.listed.workerStep hs, ?_, ?_, ?_⟩
  · intro id hn
    have hold : .streamTerminated id ∈ c.queue → ∃ v ∈ d.workers, v.id = id ∧ v.returned = true := by
      intro hn
      obtain ⟨v, hm, hv, hret⟩ := h.noticed id hn
      obtain ⟨j, hj⟩ := List.getElem?_of_mem hm
      have hne : j ≠ i := by
        rintro rfl
        rw [hw, Option.some.injEq] at hj
        subst hj
        rw [Worker.not_returned_of_not_done hrun] at hret
        cases hret
      refine ⟨v, List.mem_of_getElem? (i := j) ?_, hv, hret⟩
      rw [hd]
      exact (getElem?_set_iff hlt).2 (.inr ⟨hne, hj⟩)
    obtain ⟨_, _, hw₂, hstep₂, ⟨hret, -, rfl⟩ | ⟨-, rfl⟩⟩ := workerStep_cases hs
    · rw [hw, Option.some.injEq] at hw₂
      subst hw₂
      rw [hstep, Option.some.injEq] at hstep₂
      subst hstep₂
      rcases List.mem_append.1 hn with hn | hn
      · exact hold hn
      · obtain rfl : id = w.id := by simpa using hn
        exact ⟨w', List.mem_set hlt _, hid, hret⟩
    · exact hold hn
  · intro j hj
    obtain ⟨v, hv, hvd⟩ := h.finished j hj
    refine ⟨v, ?_, hvd⟩
    rw [hd]
    refine (getElem?_set_iff hlt).2 (.inr ⟨?_, hv⟩)
    rintro rfl
    exact hnj hj
  · intro id stats
    rw [workerStep_results hs, h.entries]
    refine exists_congr fun j => and_congr_right fun hj => ?_
    have hne : i ≠ j := by
      rintro rfl
      exact hnj hj
    rw [hd, List.getElem?_set_ne hne]

/-- Distinct ids tell workers apart. -/
theorem place_unique (hids : (c.workers.map Worker.id).Nodup) {i j : Nat} {v w : Worker} (hv : c.workers[i]? = some v)
    (hw : c.workers[j]? = some w) (hid : v.id = w.id) : i = j := by
  have hi : (c.workers.map Worker.id)[i]? = some w.id := by simp [hv, hid]
  have hj : (c.workers.map Worker.id)[j]? = some w.id := by simp [hw]
  exact (List.getElem?_inj (lt_of_getElem? hi) hids).1 (hi.trans hj.symm)

/-- The task whose notice is there has returned. -/
theorem Recorded.returned (h : Recorded c js) (hids : (c.workers.map Worker.id).Nodup) {id : Nat}
    {ref : StreamWorkerRef} (hn : .streamTerminated id ∈ c.queue) (ho : c.Owns id ref) :
    ∃ r, c.taskResult ref = some r ∧ r ≠ .panicked := by
  obtain ⟨v, hv, hvid⟩ := ho
  obtain ⟨w, hm, hid, hret⟩ := h.noticed id hn
  obtain ⟨i, hi⟩ := List.getElem?_of_mem hm
  obtain rfl := place_unique hids hi hv (hid.trans hvid.symm)
  rw [hi, Option.some.injEq] at hv
  subst hv
  obtain ⟨r, hr⟩ := taskResult_of_returned hi hret
  refine ⟨r, hr, ?_⟩
  rintro rfl
  simp [Worker.returned, WorkerPc.returned, pc_of_taskResult hi hr] at hret

/-- The task that a ref stands for is joined. -/
theorem Recorded.join (h : Recorded c js) (hids : (c.workers.map Worker.id).Nodup) {id : Nat} {ref : StreamWorkerRef}
    {r : TaskResult} (ho : c.Owns id ref) (hr : c.taskResult ref = some r) :
    Recorded (c.keepResult id r) (js ++ [ref.task]) := by
  obtain ⟨w, hw, hid⟩ := ho
  have hpc := pc_of_taskResult hw hr
  refine ⟨h.listed.sub (by rw [keepResult_workers]) (by simp), ?_, ?_, ?_⟩
  · intro id' hn
    rw [keepResult_queue] at hn
    rw [keepResult_workers]
    exact h.noticed id' hn
  · intro i hi
    rw [keepResult_workers]
    rcases List.mem_append.1 hi with hi | hi
    · exact h.finished i hi
    · rw [List.mem_singleton.1 hi]
      exact ⟨w, hw, by simp [Worker.isDone, WorkerPc.isDone, hpc]⟩
  · intro id' stats
    rw [keepResult_workers]
    simp only [List.mem_append, List.mem_singleton, or_and_right, exists_or, exists_eq_left]
    rw [← h.entries id' stats]
    cases r with
    | ok stats' =>
      simp only [keepResult, lookup_insert_iff]
      constructor
      · rintro (⟨rfl, rfl⟩ | ⟨-, hl⟩)
        · exact .inr ⟨w, hw, hid, hpc⟩
        · exact .inl hl
      · rintro (hl | ⟨v, hv, rfl, hvpc⟩)
        · by_cases he : id' = id
          · -- no other worker has this id
            obtain ⟨i, -, v, hv, hvid, hvpc⟩ := (h.entries id' stats).1 hl
            obtain rfl := place_unique hids hv hw (hvid.trans (he.trans hid.symm))
            rw [hw, Option.some.injEq] at hv
            subst hv
            rw [hpc] at hvpc
            simp only [WorkerPc.done.injEq, TaskResult.ok.injEq] at hvpc
            exact .inl ⟨he, hvpc⟩
          · exact .inr ⟨he, hl⟩
        · rw [hw, Option.some.injEq] at hv
          subst hv
          rw [hpc] at hvpc
          simp only [WorkerPc.done.injEq, TaskResult.ok.injEq] at hvpc
          exact .inl ⟨hid, hvpc⟩
    | _ =>
      -- a failed task contributes no entry
      simp only [keepResult, iff_self_or]
      rintro ⟨v, hv, -, hvpc⟩
      rw [hw, Option.some.injEq] at hv
      subst hv
      rw [hpc] at hvpc
      cases hvpc

section
variable (h : Listed c)
include h

theorem Listed.place {id : Nat} {ref : StreamWorkerRef} (hl : c.streams.lookup id = some ref) :
    ref.task < c.workers.length := by
  obtain ⟨w, hw, -⟩ := h id ref hl
  exact lt_of_getElem? hw

theorem Listed.key {id id' : Nat} {ref ref' : StreamWorkerRef} (hl : c.streams.lookup id = some ref)
    (hl' : c.streams.lookup id' = some ref') (he : ref.task = ref'.task) : id = id' := by
  obtain ⟨w, hw, rfl⟩ := h id ref hl
  obtain ⟨w', hw', rfl⟩ := h id' ref' hl'
  rw [he, hw', Option.some.injEq] at hw
  rw [hw]

theorem Listed.len_le : len c.streams ≤ c.workers.length :=
  len_le_of_places (fun _ _ hl => h.place hl) (fun _ _ _ _ hl hl' he => h.key hl hl' he)

/-- When the map is as large as the number of workers, all of them are in it. -/
theorem Listed.all_present (hlen : c.workers.length ≤ len c.streams) {i : Nat} {w : Worker}
    (hw : c.workers[i]? = some w) : c.streams.lookup w.id = some ⟨i⟩ := by
  obtain ⟨id, ref, hl, rfl⟩ := exists_lookup_of_places (fun _ _ hl => h.place hl)
    (fun _ _ _ _ hl hl' he => h.key hl hl' he) hlen (lt_of_getElem? hw)
  obtain ⟨v, hv, rfl⟩ := h id ref hl
  rw [hw, Option.some.injEq] at hv
  rw [hv, hl]

end

/-- Every worker is one of the tasks `js`, or the controller still holds its ref
under its id. -/
def Attended (c : TestController) (js : List Nat) (held : Nat → Nat → Prop) : Prop :=
  ∀ (i : Nat) (w : Worker), c.workers[i]? = some w → i ∈ js ∨ held w.id i

theorem Attended.next (h : Attended c js held) (hw : d.workers.map Worker.id = c.workers.map Worker.id) {os : List Nat}
    (hh : ∀ id i, held id i → i ∈ os ∨ held' id i) : Attended d (js ++ os) held' := by
  intro i w hi
  obtain ⟨v, hv, hvw⟩ := getElem?_of_map_eq hw hi
  rcases h i v hv with hj | hheld
  · exact .inl (List.mem_append_left _ hj)
  · exact (hvw ▸ hh _ _ hheld).imp_left (List.mem_append_right _)

/-- Of a map that loses an entry, another one stays. -/
theorem taken_or_left {m : Map StreamWorkerRef} {id id' i : Nat} {ref : StreamWorkerRef} (hk : m.lookup id = some ⟨i⟩)
    (hl : m.lookup id' = some ref) : (id = id' ∧ i = ref.task) ∨ (m.erase id').lookup id = some ⟨i⟩ := by
  by_cases he : id = id'
  · subst he
    exact .inl ⟨rfl, congrArg StreamWorkerRef.task (Option.some.inj (hk.symm.trans hl))⟩
  · exact .inr (lookup_erase_iff.2 ⟨he, hk⟩)

/-- A new worker is listed, and under distinct ids it displaces none. -/
theorem Attended.register (h : Attended c js (fun id i => c.streams.lookup id = some ⟨i⟩)) {s : Nat}
    (hids : ((c.createAndRegisterStreamWorker s).workers.map Worker.id).Nodup) :
    Attended (c.createAndRegisterStreamWorker s) js
      (fun id i => (c.createAndRegisterStreamWorker s).streams.lookup id = some ⟨i⟩) := by
  intro i w hi
  rcases getElem?_concat_iff.1 hi with hi' | ⟨rfl, rfl⟩
  · refine (h i w hi').imp_right (fun hl => lookup_insert_iff.2 (.inr ⟨fun he => ?_, hl⟩))
    have hlast : (c.createAndRegisterStreamWorker s).workers[c.workers.length]? =
        some ⟨len c.streams, s, c.nextIsSending, [], .spawned⟩ := getElem?_concat_iff.2 (.inr ⟨rfl, rfl⟩)
    have hplace := place_unique hids hi hlast he
    exact absurd (lt_of_getElem? hi') (by omega)
  · exact .inr (lookup_insert_iff.2 (.inl ⟨rfl, rfl⟩))

end TestController

/-! ## The server -/

namespace ServerTest
variable {t u : ServerTest} {e : ServerEvent} {js : List Nat}

/-- The tasks an enabled event joins. -/
def joins (t : ServerTest) : ServerEvent → List Nat
  | .join =>
    match t.pc with
    | .joining _ ref => [ref.task]
    | _ => []
  | .collect id true =>
    match t.pc with
    | .collecting pending => ((pending.lookup id).map StreamWorkerRef.task).toList
    | _ => []
  | _ => []

/-- What `collect_test_result` has returned. -/
def collected (t : ServerTest) : Option TestResults :=
  match t.pc with
  | .readingResults results => some results
  | .sendingResults results _ => some results
  | .returned (some (results, _)) => some results
  | _ => none

/-- What is kept of the tasks joined, at each point of the controller. -/
structure Collects (t : ServerTest) (js : List Nat) : Prop where
  recorded : t.Recorded js
  joining : ∀ id ref, t.pc = .joining id ref → t.Owns id ref ∧ ∃ r, t.taskResult ref = some r ∧ r ≠ .panicked
  pending : ∀ p id ref, t.pc = .collecting p → p.lookup id = some ref → t.Owns id ref
  kept : ∀ results, t.collected = some results → results.streams = t.streamResults

theorem Collects.new (cookie : String) (params : TestParameters) : Collects (new cookie params) [] :=
  ⟨.new _ rfl, by simp [ServerTest.new], by simp [ServerTest.new], by simp [ServerTest.new, collected]⟩

/-- A point where the controller holds no ref of its own and no results. -/
def idle (t : ServerTest) : Bool :=
  match t.pc with
  | .start | .loopTop | .waiting | .writingState _ _ | .storingState _ | .returned none => true
  | _ => false

theorem Collects.of_idle (hr : u.Recorded js) (hu : u.idle = true) : Collects u js := by
  unfold idle at hu
  refine ⟨hr, ?_, ?_, ?_⟩
  · intro id ref hpc
    simp [hpc] at hu
  · intro p id ref hpc
    simp [hpc] at hu
  · intro results hc
    unfold collected at hc
    split at hc <;> simp_all

theorem acceptStream_idle (s : Nat) : (t.acceptStream s).idle = true := by
  by_cases h : len (t.createAndRegisterStreamWorker s).streams = t.totalNeededStreams <;> simp [idle, acceptStream, h]

theorem afterTermination_idle : t.afterTermination.idle = true := by
  by_cases h : len t.streams = 0 <;> simp [idle, afterTermination, h]

theorem Collects.collectNext (hr : t.Recorded js) (pending : Map StreamWorkerRef)
    (hp : ∀ id ref, pending.lookup id = some ref → t.Owns id ref) : Collects (t.collectNext pending) js := by
  by_cases h : len pending = 0
  · refine ⟨hr, by simp [ServerTest.collectNext, h], by simp [ServerTest.collectNext, h], fun results hc => ?_⟩
    simp only [collected, ServerTest.collectNext, if_pos h, Option.some.injEq] at hc
    rw [← hc]
    rfl
  · refine ⟨hr, by simp [ServerTest.collectNext, h], fun p id ref hpc hl => ?_,
      by simp [collected, ServerTest.collectNext, h]⟩
    simp only [ServerTest.collectNext, if_neg h, ServerPc.collecting.injEq] at hpc
    exact hp id ref (hpc ▸ hl)

theorem collects_step (h : Step t e u) (hids : (t.workers.map Worker.id).Nodup) (hi : Collects t js) :
    Collects u (js ++ t.joins e) := by
  obtain ⟨hr, hj, hp, hk⟩ := id hi
  cases h with
  | start | announce | wait | store | wrote | writeFailed | writeIgnored | sendFailed | readFailed =>
    simp only [joins, List.append_nil]
    exact .of_idle (hr.sub rfl (fun _ _ h => h) (fun _ h => h) rfl) rfl
  | startLoad =>
    simp only [joins, List.append_nil]
    exact .of_idle (hr.sub (TestController.broadcast_stage _ _) (fun _ _ h => h) (fun _ h => h) rfl) rfl
  | finish =>
    simp only [joins, List.append_nil]
    have hb : TestController.Recorded { t.broadcastToStreams .terminate with streams := ∅ } js :=
      hr.sub (TestController.broadcast_stage _ _) (by simp) (fun _ h => h) rfl
    refine .collectNext hb _ (fun id ref hl => ?_)
    exact (hr.listed id ref hl).same (TestController.broadcast_stage _ _).symm
  | @accept _ rest _ hq =>
    simp only [joins, List.append_nil]
    have hpop : TestController.Recorded { t.toTestController with queue := rest } js :=
      hr.sub rfl (fun _ _ h => h) (fun _ h => hq ▸ List.mem_cons_of_mem _ h) rfl
    exact .of_idle (hpop.register _) (acceptStream_idle _)
  | terminated _ hq hl =>
    simp only [joins, List.append_nil]
    have ho := hr.listed _ _ hl
    have hres := hr.returned hids (hq ▸ List.mem_cons_self) ho
    refine ⟨hr.sub rfl (fun _ _ h => (lookup_erase_iff.1 h).2) (fun _ h => hq ▸ List.mem_cons_of_mem _ h) rfl, ?_,
      by simp, by simp [collected]⟩
    rintro id ref ⟨⟩
    exact ⟨ho, hres⟩
  | unknown _ hq =>
    simp only [joins, List.append_nil]
    exact .of_idle (hr.sub rfl (fun _ _ h => h) (fun _ h => hq ▸ List.mem_cons_of_mem _ h) rfl) afterTermination_idle
  | joined hpc hres =>
    simp only [joins, hpc]
    exact .of_idle (hr.join hids (hj _ _ hpc).1 hres) afterTermination_idle
  | joinFailed hpc hres =>
    obtain ⟨-, r, hr', hne⟩ := hj _ _ hpc
    rw [hres, Option.some.injEq] at hr'
    exact absurd hr'.symm hne
  | collected hpc hl hres =>
    simp only [joins, hpc, hl, Option.map_some, Option.toList_some]
    refine .collectNext (hr.join hids (hp _ _ _ hpc hl) hres) _ (fun id ref h => ?_)
    obtain ⟨w, hw⟩ := hp _ id ref hpc (lookup_erase_iff.1 h).2
    exact ⟨w, by simpa using hw⟩
  | timedOut hpc =>
    simp only [joins, List.append_nil]
    exact .collectNext hr _ (fun id ref h => hp _ id ref hpc (lookup_erase_iff.1 h).2)
  | sentResults hpc =>
    rename_i results remote
    simp only [joins, List.append_nil]
    refine ⟨hr.sub rfl (fun _ _ h => h) (fun _ h => h) rfl, by simp, by simp, fun results' hc => ?_⟩
    apply hk results'
    cases remote <;> simp_all [collected]
  | readResults hpc | readOther hpc =>
    simp only [joins, List.append_nil]
    refine ⟨hr.sub rfl (fun _ _ h => h) (fun _ h => h) rfl, by simp, by simp, fun results' hc => ?_⟩
    apply hk results'
    simpa [collected, hpc] using hc
  | worker hw =>
    simp only [joins, List.append_nil]
    refine ⟨hr.workerStep hw, fun id ref hpc => ?_, fun p id ref hpc hl => (hp p id ref hpc hl).workerStep hw,
      fun results hc => (hk results hc).trans (by rw [TestController.workerStep_results hw])⟩
    obtain ⟨ho, r, hres, hne⟩ := hj id ref hpc
    exact ⟨ho.workerStep hw, r, TestController.taskResult_workerStep hw hres, hne⟩
  | guard | unguard | vanish =>
    simp only [joins, List.append_nil]
    exact ⟨hr.sub rfl (fun _ _ h => h) (fun _ h => h) rfl, hj, hp, hk⟩
  | offer =>
    simp only [joins, List.append_nil]
    exact ⟨hr.sub rfl (fun _ _ h => h) (by simp) rfl, hj, hp, hk⟩

theorem owned_step (h : Step t e u) (hi : t.Listed) : u.Listed := by
  cases h with
  | startLoad => exact hi.sub (TestController.broadcast_stage _ _) (fun _ _ h => h)
  | finish => exact hi.sub (TestController.broadcast_stage _ _) (by simp)
  | accept => exact hi.register _
  | terminated => exact hi.sub rfl (fun _ _ h => (lookup_erase_iff.1 h).2)
  | joined | collected => exact hi.sub (by simp) (by simp)
  | worker hw => exact hi.workerStep hw
  | _ => exact hi

theorem ids_step (h : Step t e u) : t.workers.map Worker.id <+: u.workers.map Worker.id := by
  cases h with
  | startLoad | finish => simp [TestController.broadcast_ids]
  | accept => simp [TestController.createAndRegisterStreamWorker]
  | worker hw =>
    obtain ⟨w, w', hg, hs, hws, -⟩ := TestController.workerStep_spec hw
    simp [hws, TestController.set_map hg (Worker.step_spec hs).1]
  | _ => simp

theorem collects_run {cookie : String} {params : TestParameters} {es : List ServerEvent}
    (h : Run step Any (new cookie params) es t) (hids : (t.workers.map Worker.id).Nodup) :
    Collects t (log step joins (new cookie params) es) := by
  refine h.inv_log (fun js t => (t.workers.map Worker.id).Nodup → Collects t js) (fun _ => .new cookie params) ?_ hids
  intro js t e u hi _ hs hn
  have hstep := step_cases hs
  have hn' := hn.sublist (ids_step hstep).sublist
  exact collects_step hstep hn' (hi hn')

/-- The tasks that the drain gives up when their time is over. -/
def abandons (t : ServerTest) : ServerEvent → List Nat
  | .collect id false =>
    match t.pc with
    | .collecting pending => ((pending.lookup id).map StreamWorkerRef.task).toList
    | _ => []
  | _ => []

/-- The controller has the ref of task `i` under this id: in the map, in hand, or
among those to be drained. A controller that failed holds on to all. -/
def keeps (t : ServerTest) (id i : Nat) : Prop :=
  match t.pc with
  | .joining id' ref => (id = id' ∧ i = ref.task) ∨ t.streams.lookup id = some ⟨i⟩
  | .collecting pending => pending.lookup id = some ⟨i⟩
  | .readingResults _ | .sendingResults _ _ => False
  | .returned printed => printed = none
  | _ => t.streams.lookup id = some ⟨i⟩

theorem collectNext_keeps {pending : Map StreamWorkerRef} {id i : Nat} (h : pending.lookup id = some ⟨i⟩) :
    (t.collectNext pending).keeps id i := by
  have hne : len pending ≠ 0 := by
    intro hz
    simp [len_eq_zero.1 hz] at h
  simpa only [keeps, collectNext, if_neg hne] using h

theorem acceptStream_keeps {s id i : Nat} : (t.acceptStream s).keeps id i ↔
    (t.createAndRegisterStreamWorker s).streams.lookup id = some ⟨i⟩ := by
  by_cases h : len (t.createAndRegisterStreamWorker s).streams = t.totalNeededStreams <;>
    simp only [keeps, acceptStream, h, if_true, if_false]

theorem afterTermination_keeps {id i : Nat} : t.afterTermination.keeps id i ↔ t.streams.lookup id = some ⟨i⟩ := by
  by_cases h : len t.streams = 0 <;> simp only [keeps, afterTermination, h, if_true, if_false]

/-- What leaves the controller's hands is joined or given up. -/
theorem keeps_step (h : Step t e u) (hne : e = .recv → ∀ s rest, t.queue ≠ .createStream s :: rest) {id i : Nat}
    (hk : t.keeps id i) : i ∈ t.joins e ++ t.abandons e ∨ u.keeps id i := by
  cases h with
  | accept _ hq => exact absurd hq (hne rfl _ _)
  | finish _ hpc =>
    simp only [keeps, hpc] at hk
    exact .inr (collectNext_keeps hk)
  | terminated hpc _ hl =>
    simp only [keeps, hpc] at hk
    exact .inr (TestController.taken_or_left hk hl)
  | unknown hpc =>
    simp only [keeps, hpc] at hk
    exact .inr (afterTermination_keeps.2 hk)
  | joined hpc =>
    simp only [keeps, hpc] at hk
    rcases hk with ⟨-, rfl⟩ | hk
    · exact .inl (by simp [joins, hpc])
    · exact .inr (afterTermination_keeps.2 (by simpa using hk))
  | collected hpc hl =>
    simp only [keeps, hpc] at hk
    rcases TestController.taken_or_left hk hl with ⟨-, rfl⟩ | hleft
    · exact .inl (by simp [joins, hpc, hl])
    · exact .inr (collectNext_keeps hleft)
  | timedOut hpc hl =>
    simp only [keeps, hpc] at hk
    rcases TestController.taken_or_left hk hl with ⟨-, rfl⟩ | hleft
    · exact .inl (by simp [abandons, hpc, hl])
    · exact .inr (collectNext_keeps hleft)
  | worker hw =>
    refine .inr ?_
    simpa only [keeps, workerStep_test hw] using hk
  | writeFailed | joinFailed | sendFailed | readFailed => exact .inr rfl
  | sentResults hpc | readResults hpc | readOther hpc => simp [keeps, hpc] at hk
  | guard | unguard | offer | vanish => exact .inr hk
  | start _ hpc | announce _ hpc | startLoad _ hpc | wait _ hpc | store _ hpc | wrote hpc | writeIgnored hpc =>
    simp only [keeps, hpc] at hk
    exact .inr hk

theorem attended_step (h : Step t e u) (hids : (u.workers.map Worker.id).Nodup) (hi : t.Attended js t.keeps) :
    u.Attended (js ++ (t.joins e ++ t.abandons e)) u.keeps := by
  by_cases hne : e = .recv → ∀ s rest, t.queue ≠ .createStream s :: rest
  · refine hi.next ?_ (fun id i hk => keeps_step h hne hk)
    cases h with
    | startLoad | finish => simp [TestController.broadcast_ids]
    | accept _ hq => exact absurd hq (hne rfl _ _)
    | worker hw =>
      obtain ⟨w, w', hg, hs, hws, -⟩ := TestController.workerStep_spec hw
      simp [hws, TestController.set_map hg (Worker.step_spec hs).1]
    | _ => simp
  · simp only [not_forall, not_not] at hne
    obtain ⟨rfl, s, rest, hq⟩ := hne
    cases h with
    | @accept s rest hpc hq =>
      have hpop : TestController.Attended { t.toTestController with queue := rest } js
          (fun id i => t.streams.lookup id = some ⟨i⟩) := by
        intro i w hw
        simpa only [keeps, hpc] using hi i w hw
      intro i w hw
      exact (hpop.register hids i w hw).imp (List.mem_append_left _) acceptStream_keeps.2
    | terminated _ hq' | unknown _ hq' => cases hq.symm.trans hq'

/-- When the results are there, every task has been joined or given up. -/
theorem attended_run {cookie : String} {params : TestParameters} {es : List ServerEvent}
    (h : Run step Any (new cookie params) es t) (hids : (t.workers.map Worker.id).Nodup) {results : TestResults}
    (hc : t.collected = some results) {i : Nat} (hlt : i < t.workers.length) :
    i ∈ log step joins (new cookie params) es ∨ i ∈ log step abandons (new cookie params) es := by
  have main := h.inv_log (fun js t => (t.workers.map Worker.id).Nodup → t.Attended js t.keeps)
    (by simp [TestController.Attended, new, TestController.new]) (by
      intro js t e u hi _ hs hn
      have hstep := step_cases hs
      exact attended_step hstep hn (hi (hn.sublist (ids_step hstep).sublist)))
  refine mem_log_append.1 ((main hids i _ (List.getElem?_eq_getElem hlt)).resolve_right (fun hk => ?_))
  unfold collected at hc
  split at hc <;> simp_all [keeps]

end ServerTest

/-! ## The client -/

namespace ClientTest
variable {t u : ClientTest} {e : ClientEvent} {js : List Nat}

/-- The tasks an enabled event joins. -/
def joins (t : ClientTest) : ClientEvent → List Nat
  | .join =>
    match t.pc with
    | .joining _ ref => [ref.task]
    | _ => []
  | .collect id true =>
    match t.pc with
    | .collecting pending => ((pending.lookup id).map StreamWorkerRef.task).toList
    | _ => []
  | _ => []

/-- What `collect_test_result` has returned. -/
def collected (t : ClientTest) : Option TestResults :=
  match t.pc with
  | .sendingResults results => some results
  | .readingResults results => some results
  | .returned (some (results, _)) => some results
  | _ => none

/-- What is kept of the tasks joined, at each point of the controller. -/
structure Collects (t : ClientTest) (js : List Nat) : Prop where
  recorded : t.Recorded js
  joining : ∀ id ref, t.pc = .joining id ref → t.Owns id ref ∧ ∃ r, t.taskResult ref = some r ∧ r ≠ .panicked
  pending : ∀ p id ref, t.pc = .collecting p → p.lookup id = some ref → t.Owns id ref
  kept : ∀ results, t.collected = some results → results.streams = t.streamResults

theorem Collects.new (cookie : String) (params : TestParameters) : Collects (new cookie params) [] :=
  ⟨.new _ rfl, by simp [ClientTest.new], by simp [ClientTest.new], by simp [ClientTest.new, collected]⟩

/-- A point where the controller holds no ref of its own and no results. -/
def idle (t : ClientTest) : Bool :=
  match t.pc with
  | .start | .loopTop | .selecting | .storingState _ | .connecting | .returned none => true
  | _ => false

theorem Collects.of_idle (hr : u.Recorded js) (hu : u.idle = true) : Collects u js := by
  unfold idle at hu
  refine ⟨hr, ?_, ?_, ?_⟩
  · intro id ref hpc
    simp [hpc] at hu
  · intro p id ref hpc
    simp [hpc] at hu
  · intro results hc
    unfold collected at hc
    split at hc <;> simp_all

theorem createStreams_idle : t.createStreams.idle = true := by
  by_cases h : len t.streams < t.totalNeededStreams <;> simp [idle, createStreams, h]

theorem Collects.collectNext (hr : t.Recorded js) (pending : Map StreamWorkerRef)
    (hp : ∀ id ref, pending.lookup id = some ref → t.Owns id ref) : Collects (t.collectNext pending) js := by
  by_cases h : len pending = 0
  · refine ⟨hr, by simp [ClientTest.collectNext, h], by simp [ClientTest.collectNext, h], fun results hc => ?_⟩
    simp only [collected, ClientTest.collectNext, if_pos h, Option.some.injEq] at hc
    rw [← hc]
    rfl
  · refine ⟨hr, by simp [ClientTest.collectNext, h], fun p id ref hpc hl => ?_,
      by simp [collected, ClientTest.collectNext, h]⟩
    simp only [ClientTest.collectNext, if_neg h, ClientPc.collecting.injEq] at hpc
    exact hp id ref (hpc ▸ hl)

theorem collects_step (h : Step t e u) (hids : (t.workers.map Worker.id).Nodup) (hi : Collects t js) :
    Collects u (js ++ t.joins e) := by
  obtain ⟨hr, hj, hp, hk⟩ := id hi
  cases h with
  | start | select | store | told | surprised | failed | denied | sendFailed =>
    simp only [joins, List.append_nil]
    exact .of_idle (hr.sub rfl (fun _ _ h => h) (fun _ h => h) rfl) rfl
  | startLoad =>
    simp only [joins, List.append_nil]
    exact .of_idle (hr.sub (TestController.broadcast_stage _ _) (fun _ _ h => h) (fun _ h => h) rfl) rfl
  | create =>
    simp only [joins, List.append_nil]
    exact .of_idle hr createStreams_idle
  | connected =>
    simp only [joins, List.append_nil]
    exact .of_idle (hr.register _) createStreams_idle
  | finish =>
    simp only [joins, List.append_nil]
    have hb : TestController.Recorded { t.broadcastToStreams .terminate with streams := ∅ } js :=
      hr.sub (TestController.broadcast_stage _ _) (by simp) (fun _ h => h) rfl
    refine .collectNext hb _ (fun id ref hl => ?_)
    exact (hr.listed id ref hl).same (TestController.broadcast_stage _ _).symm
  | intruded _ hq | unknown _ hq =>
    simp only [joins, List.append_nil]
    exact .of_idle (hr.sub rfl (fun _ _ h => h) (fun _ h => hq ▸ List.mem_cons_of_mem _ h) rfl) rfl
  | terminated _ hq hl =>
    simp only [joins, List.append_nil]
    have ho := hr.listed _ _ hl
    have hres := hr.returned hids (hq ▸ List.mem_cons_self) ho
    refine ⟨hr.sub rfl (fun _ _ h => (lookup_erase_iff.1 h).2) (fun _ h => hq ▸ List.mem_cons_of_mem _ h) rfl, ?_,
      by simp, by simp [collected]⟩
    rintro id ref ⟨⟩
    exact ⟨ho, hres⟩
  | joined hpc hres =>
    simp only [joins, hpc]
    exact .of_idle (hr.join hids (hj _ _ hpc).1 hres) rfl
  | joinFailed hpc hres =>
    obtain ⟨-, r, hr', hne⟩ := hj _ _ hpc
    rw [hres, Option.some.injEq] at hr'
    exact absurd hr'.symm hne
  | collected hpc hl hres =>
    simp only [joins, hpc, hl, Option.map_some, Option.toList_some]
    refine .collectNext (hr.join hids (hp _ _ _ hpc hl) hres) _ (fun id ref h => ?_)
    obtain ⟨w, hw⟩ := hp _ id ref hpc (lookup_erase_iff.1 h).2
    exact ⟨w, by simpa using hw⟩
  | timedOut hpc =>
    simp only [joins, List.append_nil]
    exact .collectNext hr _ (fun id ref h => hp _ id ref hpc (lookup_erase_iff.1 h).2)
  | sentResults hpc | readResults hpc =>
    simp only [joins, List.append_nil]
    refine ⟨hr.sub rfl (fun _ _ h => h) (fun _ h => h) rfl, by simp, by simp, fun results' hc => ?_⟩
    apply hk results'
    simpa [collected, hpc] using hc
  | readOther hpc =>
    simp only [joins, List.append_nil]
    exact .of_idle (hr.sub rfl (fun _ _ h => h) (fun _ h => h) rfl) rfl
  | worker hw =>
    simp only [joins, List.append_nil]
    refine ⟨hr.workerStep hw, fun id ref hpc => ?_, fun p id ref hpc hl => (hp p id ref hpc hl).workerStep hw,
      fun results hc => (hk results hc).trans (by rw [TestController.workerStep_results hw])⟩
    obtain ⟨ho, r, hres, hne⟩ := hj id ref hpc
    exact ⟨ho.workerStep hw, r, TestController.taskResult_workerStep hw hres, hne⟩

theorem ids_step (h : Step t e u) : t.workers.map Worker.id <+: u.workers.map Worker.id := by
  cases h with
  | startLoad | finish => simp [TestController.broadcast_ids]
  | connected => simp [TestController.createAndRegisterStreamWorker]
  | worker hw =>
    obtain ⟨w, w', hg, hs, hws, -⟩ := TestController.workerStep_spec hw
    simp [hws, TestController.set_map hg (Worker.step_spec hs).1]
  | _ => simp

theorem collects_run {cookie : String} {params : TestParameters} {es : List ClientEvent}
    (h : Run step Any (new cookie params) es t) (hids : (t.workers.map Worker.id).Nodup) :
    Collects t (log step joins (new cookie params) es) := by
  refine h.inv_log (fun js t => (t.workers.map Worker.id).Nodup → Collects t js) (fun _ => .new cookie params) ?_ hids
  intro js t e u hi _ hs hn
  have hstep := step_cases hs
  have hn' := hn.sublist (ids_step hstep).sublist
  exact collects_step hstep hn' (hi hn')

/-- The tasks that the drain gives up when their time is over. -/
def abandons (t : ClientTest) : ClientEvent → List Nat
  | .collect id false =>
    match t.pc with
    | .collecting pending => ((pending.lookup id).map StreamWorkerRef.task).toList
    | _ => []
  | _ => []

/-- The controller has the ref of task `i` under this id: in the map, in hand, or
among those to be drained. A controller that failed holds on to all. -/
def keeps (t : ClientTest) (id i : Nat) : Prop :=
  match t.pc with
  | .joining id' ref => (id = id' ∧ i = ref.task) ∨ t.streams.lookup id = some ⟨i⟩
  | .collecting pending => pending.lookup id = some ⟨i⟩
  | .sendingResults _ | .readingResults _ => False
  | .returned printed => printed = none
  | _ => t.streams.lookup id = some ⟨i⟩

theorem collectNext_keeps {pending : Map StreamWorkerRef} {id i : Nat} (h : pending.lookup id = some ⟨i⟩) :
    (t.collectNext pending).keeps id i := by
  have hne : len pending ≠ 0 := by
    intro hz
    simp [len_eq_zero.1 hz] at h
  simpa only [keeps, collectNext, if_neg hne] using h

theorem createStreams_keeps {id i : Nat} : t.createStreams.keeps id i ↔ t.streams.lookup id = some ⟨i⟩ := by
  by_cases h : len t.streams < t.totalNeededStreams <;> simp only [keeps, createStreams, h, if_true, if_false]

/-- What leaves the controller's hands is joined or given up. -/
theorem keeps_step (h : Step t e u) (hne : ∀ s, e ≠ .connect (some s)) {id i : Nat} (hk : t.keeps id i) :
    i ∈ t.joins e ++ t.abandons e ∨ u.keeps id i := by
  cases h with
  | connected => exact absurd rfl (hne _)
  | create hpc =>
    simp only [keeps, hpc] at hk
    exact .inr (createStreams_keeps.2 hk)
  | finish hpc =>
    simp only [keeps, hpc] at hk
    exact .inr (collectNext_keeps hk)
  | terminated hpc _ hl =>
    simp only [keeps, hpc] at hk
    exact .inr (TestController.taken_or_left hk hl)
  | joined hpc =>
    simp only [keeps, hpc] at hk
    rcases hk with ⟨-, rfl⟩ | hk
    · exact .inl (by simp [joins, hpc])
    · exact .inr (by simpa [keeps] using hk)
  | collected hpc hl =>
    simp only [keeps, hpc] at hk
    rcases TestController.taken_or_left hk hl with ⟨-, rfl⟩ | hleft
    · exact .inl (by simp [joins, hpc, hl])
    · exact .inr (collectNext_keeps hleft)
  | timedOut hpc hl =>
    simp only [keeps, hpc] at hk
    rcases TestController.taken_or_left hk hl with ⟨-, rfl⟩ | hleft
    · exact .inl (by simp [abandons, hpc, hl])
    · exact .inr (collectNext_keeps hleft)
  | worker hw =>
    refine .inr ?_
    simpa only [keeps, workerStep_test hw] using hk
  | intruded | failed | readOther | joinFailed | denied | sendFailed => exact .inr rfl
  | sentResults hpc | readResults hpc => simp [keeps, hpc] at hk
  | start hpc | startLoad hpc | select hpc | store hpc | unknown hpc | told hpc | surprised hpc =>
    simp only [keeps, hpc] at hk
    exact .inr hk

theorem attended_step (h : Step t e u) (hids : (u.workers.map Worker.id).Nodup) (hi : t.Attended js t.keeps) :
    u.Attended (js ++ (t.joins e ++ t.abandons e)) u.keeps := by
  by_cases hne : ∀ s, e ≠ .connect (some s)
  · refine hi.next ?_ (fun id i hk => keeps_step h hne hk)
    cases h with
    | startLoad | finish => simp [TestController.broadcast_ids]
    | connected => exact absurd rfl (hne _)
    | worker hw =>
      obtain ⟨w, w', hg, hs, hws, -⟩ := TestController.workerStep_spec hw
      simp [hws, TestController.set_map hg (Worker.step_spec hs).1]
    | _ => simp
  · simp only [not_forall, not_not] at hne
    obtain ⟨s, rfl⟩ := hne
    cases h with
    | connected hpc =>
      have hlisted : t.Attended js (fun id i => t.streams.lookup id = some ⟨i⟩) := by
        intro i w hw
        simpa only [keeps, hpc] using hi i w hw
      intro i w hw
      exact (hlisted.register hids i w hw).imp (List.mem_append_left _) createStreams_keeps.2

/-- When the results are there, every task has been joined or given up. -/
theorem attended_run {cookie : String} {params : TestParameters} {es : List ClientEvent}
    (h : Run step Any (new cookie params) es t) (hids : (t.workers.map Worker.id).Nodup) {results : TestResults}
    (hc : t.collected = some results) {i : Nat} (hlt : i < t.workers.length) :
    i ∈ log step joins (new cookie params) es ∨ i ∈ log step abandons (new cookie params) es := by
  have main := h.inv_log (fun js t => (t.workers.map Worker.id).Nodup → t.Attended js t.keeps)
    (by simp [TestController.Attended, new, TestController.new]) (by
      intro js t e u hi _ hs hn
      have hstep := step_cases hs
      exact attended_step hstep hn (hi (hn.sublist (ids_step hstep).sublist)))
  refine mem_log_append.1 ((main hids i _ (List.getElem?_eq_getElem hlt)).resolve_right (fun hk => ?_))
  unfold collected at hc
  split at hc <;> simp_all [keeps]

end ClientTest

/-! ## Both ends -/

/-- The worker registered under `id` returned `Ok(stats)` and its task is among
the joined ones. -/
def TestController.JoinedOk (c : TestController) (js : List Nat) (id : Nat) (stats : StreamStats) : Prop :=
  ∃ i ∈ js, ∃ w, c.workers[i]? = some w ∧ w.id = id ∧ w.pc = .done (.ok stats)

/-- At either end, with workers registered under distinct ids: the collected
results map an id to stats exactly when its worker was joined with them, no join
of a task fails before, and every worker has been joined by then or given up by
a timeout. -/
theorem results_attributed (cookie : String) (params : TestParameters) :
    (∀ es t, Run ServerTest.step Any (ServerTest.new cookie params) es t → (t.workers.map Worker.id).Nodup →
      (∀ id ref, t.pc = .joining id ref → t.taskResult ref ≠ some .panicked) ∧
      ∀ results, t.collected = some results →
        (∀ id stats, results.streams.lookup id = some stats ↔
          t.JoinedOk (log ServerTest.step ServerTest.joins (ServerTest.new cookie params) es) id stats) ∧
        ∀ i < t.workers.length, i ∈ log ServerTest.step ServerTest.joins (ServerTest.new cookie params) es ∨
          i ∈ log ServerTest.step ServerTest.abandons (ServerTest.new cookie params) es) ∧
    (∀ es t, Run ClientTest.step Any (ClientTest.new cookie params) es t → (t.workers.map Worker.id).Nodup →
      (∀ id ref, t.pc = .joining id ref → t.taskResult ref ≠ some .panicked) ∧
      ∀ results, t.collected = some results →
        (∀ id stats, results.streams.lookup id = some stats ↔
          t.JoinedOk (log ClientTest.step ClientTest.joins (ClientTest.new cookie params) es) id stats) ∧
        ∀ i < t.workers.length, i ∈ log ClientTest.step ClientTest.joins (ClientTest.new cookie params) es ∨
          i ∈ log ClientTest.step ClientTest.abandons (ClientTest.new cookie params) es) := by
  constructor
  · intro es t h hids
    have hc := ServerTest.collects_run h hids
    constructor
    · intro id ref hpc hres
      obtain ⟨-, r, hr, hne⟩ := hc.joining id ref hpc
      rw [hres, Option.some.injEq] at hr
      exact hne hr.symm
    · intro results hres
      refine ⟨fun id stats => ?_, fun i hlt => ServerTest.attended_run h hids hres hlt⟩
      rw [hc.kept results hres]
      exact hc.recorded.entries id stats
  · intro es t h hids
    have hc := ClientTest.collects_run h hids
    constructor
    · intro id ref hpc hres
      obtain ⟨-, r, hr, hne⟩ := hc.joining id ref hpc
      rw [hres, Option.some.injEq] at hr
      exact hne hr.symm
    · intro results hres
      refine ⟨fun id stats => ?_, fun i hlt => ClientTest.attended_run h hids hres hlt⟩
      rw [hc.kept results hres]
      exact hc.recorded.entries id stats

/-- A client whose only worker, sending, is joined in the final drain. -/
def ClientTest.drainRun (stats : StreamStats) : List ClientEvent :=
  [.lock, .lock, .read (.ok (.setState (.createStreams "c"))), .lock, .lock, .connect (some 0), .worker 0 .start,
    .read (.ok (.setState .running)), .lock, .lock, .worker 0 .message, .read (.ok (.setState .exchangeResults)),
    .lock, .lock, .worker 0 (.stop stats), .collect 0 true]

/-- The server joins its worker after the notice, the client in the drain. -/
theorem results_attributed_one :
    (∃ es t, Run ServerTest.step Any (ServerTest.new "c" (uploadParams 1)) es t ∧
      t.JoinedOk (log ServerTest.step ServerTest.joins (ServerTest.new "c" (uploadParams 1)) es) 0
        ⟨false, 10000, 131072, 1, none⟩) ∧
    (∃ es t, Run ClientTest.step Any (ClientTest.new "c" (uploadParams 1)) es t ∧
      t.JoinedOk (log ClientTest.step ClientTest.joins (ClientTest.new "c" (uploadParams 1)) es) 0
        ⟨true, 10000, 131072, 1, none⟩) := by
  constructor
  · obtain ⟨t, hrun, ht⟩ := exists_run_of_exec ServerTest.step Any (ServerTest.new "c" (uploadParams 1))
      (ServerTest.announceRun ++ ServerTest.connectRun 1 ++ ServerTest.loadRun 1 ++ [.recv, .join, .write true, .lock, .lock])
      (fun t => (t.workers.map Worker.id).Nodup ∧
        t.collected.any (fun r => r.streams.lookup 0 = some ⟨false, 10000, 131072, 1, none⟩)) (by decide +kernel)
    simp only [Option.any_eq_true, decide_eq_true_eq] at ht
    obtain ⟨hids, results, hres, hl⟩ := ht
    exact ⟨_, t, hrun, ((((results_attributed "c" (uploadParams 1)).1 _ t hrun hids).2 results hres).1 0 _).1 hl⟩
  · obtain ⟨t, hrun, ht⟩ := exists_run_of_exec ClientTest.step Any (ClientTest.new "c" (uploadParams 1))
      (ClientTest.drainRun ⟨true, 10000, 131072, 1, none⟩)
      (fun t => (t.workers.map Worker.id).Nodup ∧
        t.collected.any (fun r => r.streams.lookup 0 = some ⟨true, 10000, 131072, 1, none⟩)) (by decide +kernel)
    simp only [Option.any_eq_true, decide_eq_true_eq] at ht
    obtain ⟨hids, results, hres, hl⟩ := ht
    exact ⟨_, t, hrun, ((((results_attributed "c" (uploadParams 1)).2 _ t hrun hids).2 results hres).1 0 _).1 hl⟩

end Netperf
