import Netperf.Controller
import Netperf.Lib.Lists
/-!
# The numbering of streams

`create_and_register_stream_worker` takes the size of the map as the id of the
new stream. As long as nothing is removed from the map that is the number of
workers registered before, so ids are places and no stream replaces another.
-/

namespace Netperf.TestController

open Maps

/-- The id of a stream is the place of its worker. -/
structure Numbered (c : TestController) : Prop where
  ids : ∀ (i : Nat) (w : Worker), c.workers[i]? = some w → w.id = i
  refs : ∀ id ref, c.streams.lookup id = some ref → ref.task = id ∧ id < c.workers.length

variable {c d : TestController}

theorem Numbered.new (test : PerfTest) (h : test.streams = ∅) : Numbered (TestController.new test) := by
  constructor
  · intro i w hw
    simp [TestController.new] at hw
  · intro id ref hl
    simp [TestController.new, h] at hl

/-- A change that keeps the ids in place and adds no stream to the map. -/
theorem Numbered.sub (h : Numbered c) (hw : d.workers.map Worker.id = c.workers.map Worker.id)
    (hs : ∀ id ref, d.streams.lookup id = some ref → c.streams.lookup id = some ref) : Numbered d := by
  have hlen : d.workers.length = c.workers.length := by simpa using congrArg List.length hw
  constructor
  · intro i w hi
    obtain ⟨v, hv, hvid⟩ := Lists.getElem?_of_map_eq hw hi
    rw [← hvid, h.ids i v hv]
  · intro id ref hl
    rw [hlen]
    exact h.refs id ref (hs id ref hl)

theorem broadcast_ids (m : WorkerMessage) : (c.broadcastToStreams m).workers.map Worker.id = c.workers.map Worker.id := by
  have h := congrArg (List.map Prod.fst) (c.broadcast_stage m)
  rw [List.map_map, List.map_map] at h
  exact h

theorem broadcast_streams (m : WorkerMessage) :
    (c.broadcastToStreams m).workers.map Worker.stream = c.workers.map Worker.stream := by
  have h := congrArg (List.map (fun x => x.2.1)) (c.broadcast_stage m)
  rw [List.map_map, List.map_map] at h
  exact h

theorem set_map {β : Type} {f : Worker → β} {ws : List Worker} {i : Nat} {w w' : Worker} (hw : ws[i]? = some w)
    (hf : f w' = f w) : (ws.set i w').map f = ws.map f := by
  obtain ⟨hi, rfl⟩ := List.getElem?_eq_some_iff.1 hw
  rw [List.map_set, hf, ← List.getElem_map f (h := by simpa using hi), List.set_getElem_self]

theorem Numbered.workerStep {alive o : Bool} {i : Nat} {e : WorkerEvent} (h : Numbered c)
    (hs : c.workerStep alive o i e = some d) : Numbered d := by
  obtain ⟨w, w', hw, hstep, hd, ht, -⟩ := workerStep_spec hs
  refine h.sub ?_ (fun id ref hl => by rwa [ht] at hl)
  rw [hd, set_map hw (Worker.step_spec hstep).1]

/-- While no stream has been removed the next one gets a new id. -/
theorem Numbered.register (h : Numbered c) (hlen : len c.streams = c.workers.length) (s : Nat) :
    Numbered (c.createAndRegisterStreamWorker s) ∧
      len (c.createAndRegisterStreamWorker s).streams = c.workers.length + 1 := by
  have hfresh : c.workers.length ∉ c.streams := by
    rw [Finmap.mem_iff]
    rintro ⟨ref, href⟩
    exact absurd (h.refs _ ref href).2 (by simp)
  simp only [createAndRegisterStreamWorker, hlen]
  refine ⟨⟨?_, ?_⟩, ?_⟩
  · intro i w hw
    rcases Lists.getElem?_concat_iff.1 hw with hw | ⟨hi, rfl⟩
    · exact h.ids i w hw
    · exact hi.symm
  · intro id ref hl
    simp only [List.length_append, List.length_singleton]
    rcases lookup_insert_iff.1 hl with ⟨rfl, rfl⟩ | ⟨-, hl⟩
    · exact ⟨rfl, by omega⟩
    · obtain ⟨h1, h2⟩ := h.refs id ref hl
      exact ⟨h1, by omega⟩
  · rw [len_insert _ hfresh, hlen]

/-! ## Before the load -/

/-- No stream has ended yet. -/
structure Unended (c : TestController) : Prop where
  size : len c.streams = c.workers.length
  running : ∀ w ∈ c.workers, w.isDone = false
  quiet : ∀ id, .streamTerminated id ∉ c.queue

theorem Unended.new (test : PerfTest) (h : test.streams = ∅) : Unended (TestController.new test) :=
  ⟨by simp [TestController.new, h], by simp [TestController.new], by simp [TestController.new]⟩

/-- A change that brings no notice and keeps the workers where they are. -/
theorem Unended.same (h : Unended c) (hw : d.workers.map Worker.stage = c.workers.map Worker.stage)
    (hs : d.streams = c.streams) (hq : ∀ id, .streamTerminated id ∈ d.queue → .streamTerminated id ∈ c.queue) :
    Unended d := by
  refine ⟨?_, ?_, fun id hid => h.quiet id (hq id hid)⟩
  · have hl := congrArg List.length hw
    simp only [List.length_map] at hl
    rw [hs, h.size, hl]
  · intro w hw'
    have hm : w.stage ∈ c.workers.map Worker.stage := hw ▸ List.mem_map_of_mem hw'
    obtain ⟨v, hv, hvs⟩ := List.mem_map.1 hm
    have hpc : v.pc = w.pc := congrArg (fun x => x.2.2.2) hvs
    have hd := h.running v hv
    rwa [Worker.isDone, hpc] at hd

theorem Unended.register (h : Unended c) (hn : Numbered c) (s : Nat) : Unended (c.createAndRegisterStreamWorker s) := by
  refine ⟨?_, ?_, h.quiet⟩
  · rw [(hn.register h.size s).2]
    simp [createAndRegisterStreamWorker]
  · intro w hw
    rcases List.mem_append.1 hw with hw | hw
    · exact h.running w hw
    · rw [List.mem_singleton.1 hw]
      rfl

theorem Unended.workerStep {alive o : Bool} {i : Nat} {e : WorkerEvent} (h : Unended c)
    (hs : c.workerStep alive o i e = some d) (he : c.ends o i e = false) : Unended d := by
  obtain ⟨w, w', hw, hstep, hcases⟩ := workerStep_cases hs
  have hd : w'.isDone = false := by simpa [ends, hw, hstep] using he
  have hrun : ∀ v ∈ c.workers.set i w', v.isDone = false := by
    intro v hv
    rcases List.mem_or_eq_of_mem_set hv with hv | rfl
    · exact h.running v hv
    · exact hd
  rcases hcases with ⟨hr, -, -⟩ | ⟨-, rfl⟩
  · rw [Worker.not_returned_of_not_done hd] at hr
    cases hr
  · exact ⟨by simpa using h.size, hrun, h.quiet⟩

end Netperf.TestController
