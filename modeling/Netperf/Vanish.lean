import Netperf.Staffing
/-!
# A client that vanishes

The server reads the control socket only to exchange results, so before that a
vanished client is noticed through the workers alone. It frees the server when
the load has started or is bound to start, and when neither a notice, nor the
last `SetState`, nor a worker is lost on the way.
-/

namespace Netperf.ServerTest

open Maps Runs

/-- A step some task of the test takes by itself: the controller's next poll, a
timer of the final drain, the end of file of a closed connection, or a worker
with something to do. -/
def ServerEvent.ofTask : ServerEvent → Bool
  | .lock | .write _ | .recv | .join | .collect _ _ | .read none => true
  | .worker _ .start | .worker _ .message | .worker _ (.stop _) | .worker _ .drained => true
  | _ => false

/-- A controller without its client always comes to an end: while it has not
returned one of the test's tasks has a step to take, and it does not wait for
messages that nobody is left to send. -/
def Freed (t : ServerTest) : Prop :=
  t.gone = true → t.returned = false →
    (∃ e, ServerEvent.ofTask e = true ∧ (t.step e).isSome = true) ∧
    ¬ (t.pc = .waiting ∧ t.queue = [] ∧ ∀ w ∈ t.workers, w.isDone = true)

/-! ## The controller -/

/-- All streams are there and the test is not ending. -/
def Busy (t : ServerTest) : Prop :=
  match t.pc with
  | .writingState s _ | .storingState s => s = .running
  | .loopTop | .waiting => t.state = .running
  | _ => False

/-- Without its client the controller finds the mutex free and the missing
streams queued. While the load runs a stream is listed, the task it joins is
over, and the streams it collects are not used up. -/
structure Steered (t : ServerTest) : Prop where
  unlocked : t.gone = true → t.locked = false
  expected : t.gone = true → Expected t
  listed : Busy t → t.streams ≠ ∅
  joining : ∀ id ref, t.pc = .joining id ref → ∃ w, t.workers[ref.task]? = some w ∧ w.returned = true
  collecting : ∀ pending, t.pc = .collecting pending → pending ≠ ∅

section
variable {t u : ServerTest} {e : ServerEvent}

theorem Expected.same (h : Expected t) (hc : t.complete = true → u.complete = true) (hs : u.streams = t.streams)
    (ht : u.totalNeededStreams = t.totalNeededStreams) (hq : t.queuedStreams ≤ u.queuedStreams) : Expected u := by
  rcases h with h | ⟨h1, h2⟩
  · exact .inl (hc h)
  · refine .inr ⟨by rwa [hs, ht], ?_⟩
    rw [hs, ht]
    omega

/-- A missing stream arrives: the last one completes the test, the others leave
one less to come. -/
theorem Expected.accept (hi : Expected t) (ht : t.complete = false) {s : Nat} {rest handled : List ControllerMessage}
    (hq : t.queue = .createStream s :: rest)
    (hl : len (t.createAndRegisterStreamWorker s).streams = len t.streams + 1) :
    Expected ({ t with queue := rest, handled := handled }.acceptStream s) := by
  obtain ⟨h1, h2⟩ := hi.resolve_left (by simp [ht])
  simp only [queuedStreams, hq, List.countP_cons_of_pos] at h2
  by_cases hfull : len (t.createAndRegisterStreamWorker s).streams = t.totalNeededStreams
  · refine .inl ?_
    have hpc : ({ t with queue := rest, handled := handled }.acceptStream s).pc = .writingState .running .propagate :=
      if_pos hfull
    simp [complete, hpc]
  · have htotal : ({ t with queue := rest, handled := handled }.acceptStream s).totalNeededStreams =
        t.totalNeededStreams := rfl
    have hlen : len ({ t with queue := rest, handled := handled }.acceptStream s).streams = len t.streams + 1 := hl
    refine .inr ⟨?_, ?_⟩
    · rw [htotal, hlen]
      omega
    · rw [htotal, hlen, queuedStreams]
      simp only [acceptStream_toTestController, TestController.createAndRegisterStreamWorker_queue]
      omega

theorem expected_step (h : Step t e u) (hc : Frees t e) (hp : Phase t) (he : Enlisted t) (hu : u.returned = false)
    (hi : Expected t) : Expected u := by
  have hmono := fun ht => complete_step h hp ht hu
  cases h with
  | accept hpc hq =>
    have ht := hc.incomplete hpc hq hp
    have hlen := (he.early ht).size
    exact hi.accept ht hq (hlen ▸ (he.numbered.register hlen _).2)
  | terminated _ hq | unknown _ hq => exact .inl (hmono (he.complete_of_notice (hq ▸ List.mem_cons_self)))
  | finish _ _ hs => exact .inl (hmono (complete_of_running (.inr hs)))
  | worker hw =>
    obtain ⟨w, w', -, -, -, htest, hq⟩ := TestController.workerStep_spec hw
    apply hi.same hmono (by rw [htest]) (by rw [htest])
    rcases hq with hq | hq <;> simp [queuedStreams, hq]
  | _ => exact hi.same hmono (by simp) (by simp [PerfTest.totalNeededStreams]) (by simp [queuedStreams])

theorem unlocked_step (h : Step t e u) (hc : Frees t e) (hi : t.gone = true → t.locked = false) (hu : u.gone = true) :
    u.locked = false := by
  cases h with
  | guard =>
    have hg : t.gone = false := hc
    exact absurd hu (by simp [hg])
  | vanish => exact hc.1
  | unguard | offer => rfl
  | _ => simpa using hi (by simpa using hu)

theorem acceptStream_listed (s : Nat) : (t.acceptStream s).streams ≠ ∅ := by
  intro h
  have hl : (t.acceptStream s).streams.lookup (len t.streams) = some ⟨t.workers.length⟩ := Finmap.lookup_insert _
  rw [h] at hl
  simp at hl

theorem afterTermination_listed (h : Busy t.afterTermination) : t.afterTermination.streams ≠ ∅ := by
  intro he
  have hlen : len t.streams = 0 := by rw [len_eq_zero]; exact he
  simp [Busy, afterTermination, hlen] at h

theorem collectNext_not_busy {pending : Map StreamWorkerRef} : ¬ Busy (t.collectNext pending) := by
  by_cases h : len pending = 0 <;> simp [Busy, collectNext, h]

theorem listed_step (h : Step t e u) (hc : Frees t e) (hp : Phase t) (hu : u.returned = false)
    (hi : Busy t → t.streams ≠ ∅) (hb : Busy u) : u.streams ≠ ∅ := by
  cases h with
  | start _ hpc =>
    simp only [Phase, hpc] at hp
    exact absurd (hp.1.symm.trans hb) (by simp)
  | announce => cases hb
  | startLoad _ hpc hs => exact hi (by simpa only [Busy, hpc] using hs)
  | wait _ hpc => exact hi (by simpa only [Busy, hpc] using hb)
  | store _ hpc => exact hi (by simpa only [Busy, hpc] using hb)
  | wrote hpc => exact hi (by simpa only [Busy, hpc] using hb)
  | @writeIgnored s hpc =>
    -- only the last `SetState` is written without a look at the outcome
    simp only [Phase, hpc] at hp
    rw [hp.2.2.1 trivial] at hpc
    rcases hc with h | h
    · cases h
    · exact absurd hpc h
  | accept => exact acceptStream_listed _
  | unknown | joined => exact afterTermination_listed hb
  | finish | collected | timedOut => exact absurd hb collectNext_not_busy
  | worker hw =>
    simp only [Busy, workerStep_test hw] at hb ⊢
    exact hi hb
  | guard | unguard | offer | vanish => exact hi hb
  | terminated | readResults | readOther => exact hb.elim
  | _ => simp [returned] at hu

/-- A worker the controller joins has returned, and takes no more steps. -/
theorem joining_step (h : Step t e u) (hk : Kept t.handled t.queue t.workers t.streams) (he : Enlisted t)
    (hi : ∀ id ref, t.pc = .joining id ref → ∃ w, t.workers[ref.task]? = some w ∧ w.returned = true)
    {id : Nat} {ref : StreamWorkerRef} (hu : u.pc = .joining id ref) :
    ∃ w, u.workers[ref.task]? = some w ∧ w.returned = true := by
  cases h with
  | @terminated _ _ _ _ hq hl =>
    cases hu
    obtain ⟨w, hw, hr⟩ := he.noticed hk (hq ▸ List.mem_cons_self)
    exact ⟨w, (he.numbered.refs _ _ hl).1 ▸ hw, hr⟩
  | worker hw =>
    obtain ⟨w, hg, hr⟩ := hi id ref hu
    obtain ⟨v, v', hv, hs, hws, -⟩ := TestController.workerStep_spec hw
    refine ⟨w, ?_, hr⟩
    rw [hws, List.getElem?_set_ne, hg]
    rintro rfl
    rw [hg, Option.some.injEq] at hv
    subst hv
    rw [Worker.not_returned_of_not_done (Worker.step_spec hs).2.2.2] at hr
    cases hr
  | guard | unguard | offer | vanish => exact hi id ref hu
  | accept | unknown | joined | finish | collected | timedOut =>
    simp only [acceptStream, afterTermination, collectNext] at hu
    split at hu <;> cases hu
  | _ => cases hu

theorem collecting_step (h : Step t e u) (hi : ∀ pending, t.pc = .collecting pending → pending ≠ ∅)
    {pending : Map StreamWorkerRef} (hu : u.pc = .collecting pending) : pending ≠ ∅ := by
  cases h with
  | worker | guard | unguard | offer | vanish => exact hi pending hu
  | finish | collected | timedOut =>
    simp only [collectNext] at hu
    split at hu
    · cases hu
    · rename_i hne
      cases hu
      exact mt len_eq_zero.2 hne
  | accept | unknown | joined =>
    simp only [acceptStream, afterTermination] at hu
    split at hu <;> cases hu
  | _ => cases hu

theorem steered_step (h : Step t e u) (hc : Frees t e) (hp : Phase t)
    (hk : Kept t.handled t.queue t.workers t.streams) (he : Enlisted t) (hu : u.returned = false) (hi : Steered t) :
    Steered u := by
  refine ⟨unlocked_step h hc hi.unlocked, fun hg => ?_, listed_step h hc hp hu hi.listed,
    fun id ref => joining_step h hk he hi.joining, fun pending => collecting_step h hi.collecting⟩
  by_cases hv : t.gone = true
  · exact expected_step h hc hp he hu (hi.expected hv)
  · -- the client vanishes right now
    cases h with
    | vanish => exact hc.2
    | _ => simp_all

end

/-! ## Runs -/

theorem sound_run {cookie : String} {params : TestParameters} {es : List ServerEvent} {t : ServerTest}
    (h : Run step Frees (new cookie params) es t) : Phase t ∧ (t.returned = false →
      Kept t.handled t.queue t.workers t.streams ∧ Enlisted t ∧ Staffed t ∧ Steered t) := by
  refine ⟨phase_reach h.reach, ?_⟩
  induction h with
  | nil =>
    intro _
    refine ⟨⟨fun id => rfl, by simp [new, TestController.new, PerfTest.new]⟩,
      ⟨TestController.Numbered.new _ rfl, fun _ => TestController.Unended.new _ rfl⟩,
      ⟨by simp [new, TestController.new], by simp [new, TestController.new], by simp [new]⟩,
      ⟨by simp [new], by simp [new], fun hb => hb.elim, by simp [new], by simp [new]⟩⟩
  | @snoc es t u e h hc hs ih =>
    intro hu
    have hstep := step_cases hs
    have hp := phase_reach h.reach
    have ht := returned_of_step hstep hu
    obtain ⟨hk, he, hst, hse⟩ := ih ht
    exact ⟨kept_step hstep hc.room (fun _ => hk) hu, enlisted_step hstep hc hp he hu, staffed_step hstep hc hp he hst,
      steered_step hstep hc hp hk he hu hse⟩

/-- A worker with a message or past its start has a step to take. -/
theorem worker_enabled {w : Worker} (o : Bool) (hd : w.isDone = false)
    (hi : w.pc = .spawned ∨ w.pc = .waiting → w.inbox ≠ []) :
    ∃ e, ServerEvent.ofTask (.worker 0 e) = true ∧ (w.step o e).isSome = true := by
  cases hpc : w.pc with
  | spawned => exact ⟨.start, rfl, by simp [Worker.step, hpc]⟩
  | waiting =>
    obtain ⟨m, rest, hm⟩ := List.exists_cons_of_ne_nil (hi (.inr hpc))
    refine ⟨.message, rfl, ?_⟩
    cases m <;> simp [Worker.step, hpc, hm]
  | loading => exact ⟨.stop ⟨false, 0, 0, 0, none⟩, rfl, by simp [Worker.step, hpc]⟩
  | draining => exact ⟨.drained, rfl, by simp [Worker.step, hpc]⟩
  | done => simp [Worker.isDone, WorkerPc.isDone, hpc] at hd

/-- A listed worker without a queued notice is still running. -/
theorem listed_enabled {t : ServerTest} (hk : Kept t.handled t.queue t.workers t.streams) (he : Enlisted t)
    (hs : Staffed t) (ho : t.oldState = .running) (hq : t.queue = []) (hne : t.streams ≠ ∅) :
    ∃ i w, t.workers[i]? = some w ∧ w.isDone = false ∧
      ∃ e, ServerEvent.ofTask (.worker i e) = true ∧ (t.step (.worker i e)).isSome = true := by
  obtain ⟨id, ref, hl⟩ := exists_lookup_of_ne_empty hne
  obtain ⟨w, hw, -, hr⟩ := hk.listed id ref hl
  have hid := (he.numbered.refs id ref hl).1
  rw [hid] at hw
  have hd : w.isDone = false := by
    by_contra hd
    rcases Worker.done_cases (by simpa using hd) with hret | hpanic
    · have hmem := hr hret
      rw [hq] at hmem
      cases hmem
    · exact hs.unpanicked w (List.mem_of_getElem? hw) hpanic
  obtain ⟨e, ht, hstep⟩ := worker_enabled (t.channelOpen id) hd (hs.signalled ho id ref w hl hw)
  refine ⟨id, w, hw, hd, e, ?_, ?_⟩
  · cases e <;> first | rfl | cases ht
  · obtain ⟨w', hw'⟩ := Option.isSome_iff_exists.1 hstep
    simp only [step, TestController.workerStep, hw, hw', Option.isSome_map]
    split <;> rfl

/-- A vanished client frees the server, in every run that keeps to the
conditions. -/
theorem vanished_client_frees {cookie : String} {params : TestParameters} {es : List ServerEvent} {t : ServerTest}
    (h : Run step Frees (new cookie params) es t) : Freed t := by
  obtain ⟨hp, hi⟩ := sound_run h
  intro hg hr
  obtain ⟨hk, he, hs, hst⟩ := hi hr
  have hl := hst.unlocked hg
  -- only a controller that waits with an empty channel depends on its workers
  by_cases hw : t.pc = .waiting ∧ t.queue = []
  · obtain ⟨hpc, hq⟩ := hw
    have hrun : t.state = .running := by
      refine (complete_waiting hpc hp).1 ((hst.expected hg).resolve_right ?_)
      simp only [queuedStreams, hq, List.countP_nil]
      omega
    have ho : t.oldState = .running := by
      simp only [Phase, hpc] at hp
      exact hp.1.trans hrun
    obtain ⟨i, w, hget, hd, e, hof, hstep⟩ :=
      listed_enabled hk he hs ho hq (hst.listed (by simpa only [Busy, hpc] using hrun))
    refine ⟨⟨_, hof, hstep⟩, fun hstuck => ?_⟩
    rw [hstuck.2.2 w (List.mem_of_getElem? hget)] at hd
    cases hd
  · refine ⟨?_, fun hstuck => hw ⟨hstuck.1, hstuck.2.1⟩⟩
    cases hpc : t.pc with
    | start => exact ⟨.lock, rfl, by simp [step, hl, hpc]⟩
    | loopTop => exact ⟨.lock, rfl, by simp [step, hl, hpc]⟩
    | storingState s => exact ⟨.lock, rfl, by simp [step, hl, hpc]⟩
    | waiting =>
      obtain ⟨m, rest, hq⟩ := List.exists_cons_of_ne_nil (fun hq => hw ⟨hpc, hq⟩)
      exact ⟨.recv, rfl, by simp [step, hpc, hq]⟩
    | joining id ref =>
      obtain ⟨w, hget, hret⟩ := hst.joining id ref hpc
      obtain ⟨r, hres⟩ := t.taskResult_of_returned hget hret
      refine ⟨.join, rfl, ?_⟩
      cases r <;> simp [step, hpc, hres]
    | writingState s k => exact ⟨.write true, rfl, by simp [step, hpc]⟩
    | sendingResults results remote => exact ⟨.write true, rfl, by simp [step, hpc]⟩
    | readingResults results => exact ⟨.read none, rfl, by simp [step, hpc]⟩
    | collecting pending =>
      obtain ⟨id, ref, hl⟩ := exists_lookup_of_ne_empty (hst.collecting pending hpc)
      cases hres : t.taskResult ref with
      | none => exact ⟨.collect id false, rfl, by simp [step, hpc, hl, hres]⟩
      | some r => exact ⟨.collect id true, rfl, by simp [step, hpc, hl, hres]⟩
    | returned printed => simp [returned, hpc] at hr

instance (t : ServerTest) : Decidable (Expected t) := by
  unfold Expected
  infer_instance

instance (t : ServerTest) : ∀ e, Decidable (Frees t e)
  | .lock | .write _ | .recv | .join | .collect _ _ | .read _ | .worker _ _ | .guard | .unguard | .offer _ | .vanish => by
    unfold Frees
    infer_instance

/-- The client vanishes with one stream registered and the last one queued. -/
def lateVanishRun : List ServerEvent :=
  announceRun ++ [.guard, .offer 0, .recv, .lock, .guard, .offer 1, .vanish, .recv, .write true, .lock, .lock]

theorem vanished_client_frees_late : ∃ es t, Run step Frees (new "c" (uploadParams 2)) es t ∧
    (t.gone = true ∧ t.returned = false ∧ t.pc = .waiting ∧ t.queue = []) ∧ Freed t := by
  obtain ⟨t, hrun, ht⟩ := exists_run_of_exec step Frees (new "c" (uploadParams 2)) lateVanishRun
    (fun t => t.gone = true ∧ t.returned = false ∧ t.pc = .waiting ∧ t.queue = []) (by decide +kernel)
  exact ⟨_, t, hrun, by simpa using ht, vanished_client_frees hrun⟩

/-- A controller without messages whose workers all wait for theirs is stuck. -/
theorem idle_stuck {t : ServerTest} (hpc : t.pc = .waiting) (hq : t.queue = [])
    (hw : ∀ i w, t.workers[i]? = some w → w.pc = .waiting ∧ w.inbox = [] ∧ t.channelOpen i = true)
    {e : ServerEvent} (he : ServerEvent.ofTask e = true) : t.step e = none := by
  cases e with
  | worker i e =>
    simp only [step, TestController.workerStep, Option.map_eq_none_iff]
    cases hg : t.workers[i]? with
    | none => rfl
    | some w =>
      obtain ⟨hwpc, hin, hopen⟩ := hw i w hg
      cases e <;> simp_all [Worker.step, ServerEvent.ofTask]
  | guard | unguard | offer | vanish => cases he
  | _ => simp [step, hpc, hq]

/-- The client vanishes after the first of two streams: the controller waits for
the second, and the worker of the first for `StartLoad`, both for ever. -/
theorem vanished_client_blocks : ∃ t, Reach step (new "c" (uploadParams 2)) t ∧ ¬ Freed t := by
  obtain ⟨t, hr, ht⟩ := exists_of_exec step (new "c" (uploadParams 2))
    (announceRun ++ [.guard, .offer 0, .recv, .worker 0 .start, .lock, .vanish])
    (fun t => t.gone ∧ !t.returned ∧ t.pc = .waiting ∧ t.queue = [] ∧
      t.workers.zipIdx.all (fun (w, i) => w.pc = .waiting ∧ w.inbox = [] ∧ t.channelOpen i)) (by decide +kernel)
  simp only [Bool.not_eq_true', List.all_eq_true, decide_eq_true_eq] at ht
  obtain ⟨hg, hret, hpc, hq, hw⟩ := ht
  refine ⟨t, hr, fun hf => ?_⟩
  obtain ⟨⟨e, he, hs⟩, -⟩ := hf hg hret
  rw [idle_stuck hpc hq (fun i w hi => hw (w, i) (List.mk_mem_zipIdx_iff_getElem?.2 hi)) he] at hs
  cases hs

end Netperf.ServerTest
