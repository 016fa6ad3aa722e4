import Netperf.ServerPhases
import Netperf.Notices
import Netperf.Registration
/-!
# Staffing a test

How a test gets from its first stream to a running load. The conditions on a
run under which nothing is lost on the way, and what they give: streams are
numbered by the order of their workers, and every listed worker is told to
start.
-/

namespace Netperf.ServerTest

open Maps Runs

/-- All the streams the test needs have been registered. -/
def complete (t : ServerTest) : Bool :=
  match t.pc with
  | .writingState .running _ | .storingState .running => true
  | _ => t.state = .running ∨ t.state = .exchangeResults

/-- The number of connections in the controller's channel. -/
def queuedStreams (t : ServerTest) : Nat :=
  t.queue.countP (fun m => match m with
    | .createStream _ => true
    | .streamTerminated _ => false)

/-- The streams still missing are on their way in the channel. -/
def Expected (t : ServerTest) : Prop :=
  t.complete = true ∨
    (len t.streams < t.totalNeededStreams ∧ t.totalNeededStreams ≤ len t.streams + t.queuedStreams)

/-- The events after which a vanished client still frees the server. The client
vanishes when no stream is missing any more, and not while the accept loop
holds the state's mutex, which is not taken afterwards. No worker panics, none
ends before all streams are there, and none that returns finds the channel
full. The last `SetState` is written, and no stream joins a running load. -/
def Frees (t : ServerTest) : ServerEvent → Prop
  | .vanish => t.locked = false ∧ Expected t
  | .guard => t.gone = false
  | .worker i e => e ≠ .panic ∧ (t.returns i e = true → t.queue.length < internalProtBuffer ∧ t.complete = true)
  | .write ok => ok = true ∨ t.pc ≠ .writingState .exchangeResults .ignore
  | .recv => t.state = .running → t.queue.head?.all (fun m => match m with
    | .createStream _ => false
    | .streamTerminated _ => true) = true
  | _ => True

theorem Frees.room {t : ServerTest} {e : ServerEvent} (h : Frees t e) : RoomForNotice t e := by
  cases e with
  | worker i e => exact fun hr => (h.2 hr).1
  | _ => trivial

/-! ## Registration -/

/-- Until all streams are there none ends. -/
structure Enlisted (t : ServerTest) : Prop where
  numbered : t.Numbered
  early : t.complete = false → t.Unended

theorem complete_of_running {t : ServerTest} (h : t.state = .running ∨ t.state = .exchangeResults) :
    t.complete = true := by
  unfold complete
  split
  · rfl
  · rfl
  · simpa using h

theorem complete_waiting {t : ServerTest} (hpc : t.pc = .waiting) (h : Phase t) :
    t.complete = true ↔ t.state = .running := by
  simp only [Phase, hpc] at h
  rcases h.2 with hs | hs <;> simp [complete, hpc, hs]

theorem Transit.onward {cookie : String} {s s' : State} (h : Transit cookie s s')
    (hs : s = .running ∨ s = .exchangeResults) : s' = .running ∨ s' = .exchangeResults := by
  cases h <;> simp_all

/-- Once all streams are there they stay so. -/
theorem complete_step {t u : ServerTest} {e : ServerEvent} (h : Step t e u) (hp : Phase t) (hc : t.complete = true)
    (hu : u.returned = false) : u.complete = true := by
  cases h with
  | @store s hl hpc =>
    simp only [Phase, hpc] at hp
    apply complete_of_running
    by_cases hs : s = .running
    · exact .inl hs
    · exact hp.2.onward (by simpa [complete, hpc, hs] using hc)
  | worker hw =>
    simp only [complete, workerStep_test hw] at hc ⊢
    exact hc
  | @wrote s k hpc => cases s <;> simp_all [complete]
  | startLoad _ _ hs => exact complete_of_running (.inl hs)
  | finish _ _ hs => exact complete_of_running (.inr hs)
  | accept hpc | unknown hpc | joined hpc | collected hpc | timedOut hpc =>
    apply complete_of_running
    simpa [complete, hpc] using hc
  | _ => simp_all [complete, Phase, returned]

section
variable {t u : ServerTest} {e : ServerEvent}

/-- A queued notice is of a worker that returned. -/
theorem Enlisted.noticed (hi : Enlisted t) (hk : Kept t.handled t.queue t.workers t.streams) {id : Nat}
    (h : ControllerMessage.streamTerminated id ∈ t.queue) : ∃ w, t.workers[id]? = some w ∧ w.returned = true := by
  have hpos : 0 < (t.handled ++ t.queue).count (.streamTerminated id) :=
    List.count_pos_iff.2 (List.mem_append_right _ h)
  rw [hk.counted id, List.countP_pos_iff] at hpos
  obtain ⟨w, hw, hr⟩ := hpos
  simp only [decide_eq_true_eq] at hr
  obtain ⟨i, hi', rfl⟩ := List.getElem_of_mem hw
  have hid := hi.numbered.ids i _ (List.getElem?_eq_getElem hi')
  rw [hr.1] at hid
  subst hid
  exact ⟨_, List.getElem?_eq_getElem hi', hr.2⟩

/-- Before all streams are there no notice is queued. -/
theorem Enlisted.complete_of_notice (hi : Enlisted t) {id : Nat}
    (h : ControllerMessage.streamTerminated id ∈ t.queue) : t.complete = true := by
  by_contra hc
  exact (hi.early (by simpa using hc)).quiet id h

theorem Enlisted.same (hi : Enlisted t) (hn : u.Numbered) (hw : u.workers.map Worker.stage = t.workers.map Worker.stage)
    (hs : u.streams = t.streams) (hq : ∀ id, .streamTerminated id ∈ u.queue → .streamTerminated id ∈ t.queue)
    (hc : t.complete = true → u.complete = true) : Enlisted u := by
  refine ⟨hn, fun hu => (hi.early ?_).same hw hs hq⟩
  by_contra ht
  simp [hc (by simpa using ht)] at hu

/-- In a controller that takes a connection all streams are not there yet. -/
theorem Frees.incomplete (hc : Frees t .recv) {s : Nat} {rest : List ControllerMessage} (hpc : t.pc = .waiting)
    (hq : t.queue = .createStream s :: rest) (hp : Phase t) : t.complete = false := by
  by_contra h
  have hrun := (complete_waiting hpc hp).1 (by simpa using h)
  have hhead := hc hrun
  simp [hq] at hhead

/-- No worker ends before all streams are there. -/
theorem Frees.not_ended {i : Nat} {we : WorkerEvent} (hc : Frees t (.worker i we)) (ht : t.complete = false) :
    t.ends (t.channelOpen i) i we = false := by
  by_contra hends
  simp only [TestController.ends, Bool.not_eq_false, Option.any_eq_true] at hends
  obtain ⟨w, hg, w', hs, hd⟩ := hends
  rcases Worker.done_cases hd with hr | hpanic
  · simp [(hc.2 (by simp [returns, hg, hs, hr])).2] at ht
  · exact hc.1 (Worker.step_panicked hs hpanic)

theorem enlisted_step (h : Step t e u) (hc : Frees t e) (hp : Phase t) (hi : Enlisted t) (hu : u.returned = false) :
    Enlisted u := by
  have hmono := fun ht => complete_step h hp ht hu
  have hn := hi.numbered
  cases h with
  | startLoad =>
    exact hi.same (hn.sub (TestController.broadcast_ids _) (fun _ _ h => h)) (t.broadcast_stage _) rfl (by simp) hmono
  | finish _ _ hs =>
    refine ⟨hn.sub (TestController.broadcast_ids _) (by simp), fun h => ?_⟩
    rw [hmono (complete_of_running (.inr hs))] at h
    cases h
  | @accept s rest hpc hq =>
    have ht := hc.incomplete hpc hq hp
    have hn' : TestController.Numbered { t.toTestController with queue := rest } := hn.sub rfl (fun _ _ h => h)
    have he : TestController.Unended { t.toTestController with queue := rest } :=
      (hi.early ht).same rfl rfl (by simp [hq])
    exact ⟨(hn'.register he.size _).1, fun _ => he.register hn' _⟩
  | terminated _ hq =>
    have ht := hmono (hi.complete_of_notice (hq ▸ List.mem_cons_self))
    exact ⟨hn.sub rfl (fun _ _ h => (lookup_erase_iff.1 h).2), by simp [ht]⟩
  | unknown _ hq =>
    exact hi.same (hn.sub (by simp) (by simp)) (by simp) (by simp) (by simp +contextual [hq]) hmono
  | worker hw =>
    refine ⟨hn.workerStep hw, fun h => ?_⟩
    have ht : t.complete = false := by
      by_contra ht
      simp [hmono (by simpa using ht)] at h
    exact (hi.early ht).workerStep hw (hc.not_ended ht)
  | _ => exact hi.same (hn.sub (by simp) (by simp)) (by simp) (by simp) (by simp) hmono

/-! ## The workers -/

/-- No worker panicked. Until the load starts the workers have no messages; from
then on each listed one has its `StartLoad`, or is past it. -/
structure Staffed (t : ServerTest) : Prop where
  unpanicked : ∀ w ∈ t.workers, w.pc ≠ .done .panicked
  quiet : t.state ≠ .exchangeResults → t.oldState ≠ .running → ∀ w ∈ t.workers, w.inbox = []
  signalled : t.oldState = .running → ∀ id ref w, t.streams.lookup id = some ref → t.workers[id]? = some w →
    w.pc = .spawned ∨ w.pc = .waiting → w.inbox ≠ []

theorem Staffed.same (h : Staffed t) (hw : u.workers = t.workers) (ho : u.oldState = t.oldState)
    (hs : u.state = t.state ∨ t.state ≠ .exchangeResults)
    (hm : ∀ id ref, u.streams.lookup id = some ref → t.streams.lookup id = some ref) : Staffed u := by
  refine ⟨hw ▸ h.unpanicked, ?_, ?_⟩
  · intro hu hold
    rw [hw]
    refine h.quiet ?_ (ho ▸ hold)
    rcases hs with hs | hs
    · exact hs ▸ hu
    · exact hs
  · intro hold id ref w hl hg
    exact h.signalled (ho ▸ hold) id ref w (hm id ref hl) (hw ▸ hg)

theorem Staffed.broadcast (h : Staffed t) (m : WorkerMessage) :
    ∀ w ∈ (t.broadcastToStreams m).workers, w.pc ≠ .done .panicked := by
  intro w hw
  obtain ⟨i, hi⟩ := List.getElem?_of_mem hw
  obtain ⟨v, hv, rfl⟩ := t.broadcast_origin hi
  rw [Worker.trySend_if_pc]
  exact h.unpanicked v (List.mem_of_getElem? hv)

/-- The broadcast reaches every listed worker that is still to start. -/
theorem Staffed.startLoad (h : Staffed t) (hn : t.Numbered) (hs : t.state = .running) (ho : t.oldState ≠ .running)
    (pc : ServerPc) :
    Staffed { t with toTestController := t.broadcastToStreams .startLoad, oldState := t.state, pc := pc } := by
  have hquiet := h.quiet (by simp [hs]) ho
  refine ⟨h.broadcast _, fun _ hold => absurd hs hold, fun _ id ref w hl hg hpc => ?_⟩
  obtain ⟨v, hv, rfl⟩ := t.broadcast_origin hg
  rw [Worker.trySend_if_pc] at hpc
  have hvd : v.isDone = false := by
    rcases hpc with hpc | hpc <;> simp [Worker.isDone, WorkerPc.isDone, hpc]
  have href : t.streams.lookup v.id = some ⟨id⟩ := by
    obtain ⟨task⟩ := ref
    obtain ⟨rfl, -⟩ := hn.refs id _ hl
    rw [hn.ids _ v hv]
    exact hl
  simp [href, Worker.trySend, hvd, hquiet v (List.mem_of_getElem? hv), internalProtBuffer]

theorem Staffed.accept (h : Staffed t) (ho : t.oldState ≠ .running) (s : Nat) : Staffed (t.acceptStream s) := by
  refine ⟨?_, ?_, fun hold => absurd hold ho⟩
  · intro w hw
    rcases List.mem_append.1 hw with hw | hw
    · exact h.unpanicked w hw
    · rw [List.mem_singleton.1 hw]
      simp
  · intro hs hold w hw
    rcases List.mem_append.1 hw with hw | hw
    · exact h.quiet hs hold w hw
    · rw [List.mem_singleton.1 hw]

theorem Staffed.worker (h : Staffed t) {c : TestController} {i : Nat} {we : WorkerEvent} {alive o : Bool}
    (hw : t.workerStep alive o i we = some c) (hne : we ≠ .panic) : Staffed { t with toTestController := c } := by
  obtain ⟨w, w', hg, hs, hws, htest, -⟩ := TestController.workerStep_spec hw
  have hmem := List.mem_of_getElem? hg
  have hstate : c.state = t.state := by rw [htest]
  have hstreams : c.streams = t.streams := by rw [htest]
  refine ⟨?_, ?_, ?_⟩
  · intro v hv
    rcases List.mem_or_eq_of_mem_set (hws ▸ hv) with hv | rfl
    · exact h.unpanicked v hv
    · exact fun hp => hne (Worker.step_panicked hs hp)
  · intro hu hold v hv
    have hq := h.quiet (hstate ▸ hu) hold
    rcases List.mem_or_eq_of_mem_set (hws ▸ hv) with hv | rfl
    · exact hq v hv
    · exact Worker.step_inbox hs (hq w hmem)
  · intro hold id ref v hl hv hpc
    have hsig := h.signalled hold id ref
    simp only [hws, hstreams] at hl hv
    by_cases he : i = id
    · subst he
      have hi := (List.getElem?_eq_some_iff.1 hg).1
      simp only [List.getElem?_set_self hi, Option.some.injEq] at hv
      subst hv
      obtain ⟨hpc, hin⟩ := Worker.step_early hs hpc
      exact hin ▸ hsig w hl hg hpc
    · rw [List.getElem?_set_ne he] at hv
      exact hsig v hl hv hpc

theorem staffed_step (h : Step t e u) (hc : Frees t e) (hp : Phase t) (he : Enlisted t) (hi : Staffed t) :
    Staffed u := by
  cases h with
  | start _ hpc =>
    simp only [Phase, hpc] at hp
    exact hi.same rfl (hp.1.trans hp.2.symm) (.inl rfl) (fun _ _ h => h)
  | startLoad _ _ hs ho => exact hi.startLoad he.numbered hs ho _
  | wait _ hpc hs =>
    rcases hp.waits hpc hs with ⟨⟨c, hs⟩, ho⟩ | ⟨hs, ho⟩
    · exact ⟨hi.unpanicked, fun hu _ => hi.quiet hu ho, by simp [hs]⟩
    · exact hi.same rfl (hs.trans ho.symm) (.inl rfl) (fun _ _ h => h)
  | finish _ _ hs =>
    exact ⟨hi.broadcast _, fun hu => absurd hs hu, fun _ id ref w hl => by simp at hl⟩
  | store _ hpc =>
    simp only [Phase, hpc] at hp
    exact hi.same rfl rfl (.inr hp.2.not_ended) (fun _ _ h => h)
  | accept hpc hq =>
    have ht := hc.incomplete hpc hq hp
    have hrun := mt (complete_waiting hpc hp).2 (by simp [ht])
    simp only [Phase, hpc] at hp
    refine Staffed.accept ?_ ?_ _
    · exact hi.same rfl rfl (.inl rfl) (fun _ _ h => h)
    · exact hp.1 ▸ hrun
  | terminated => exact hi.same rfl rfl (.inl rfl) (fun _ _ h => (lookup_erase_iff.1 h).2)
  | worker hw => exact hi.worker hw hc.1
  | _ => exact hi.same (by simp) (by simp) (by simp) (by simp)

end

end Netperf.ServerTest
