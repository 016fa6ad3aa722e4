import Netperf.Collection
/-!
# The ids of streams

The id of a new stream is the number of streams in the map. Streams leave the
map, so the id of a live stream, or one that has a result, can be given again.
-/

namespace Netperf

open Maps Runs Lists

namespace TestController

variable {c d : TestController} {out : Map StreamWorkerRef} {id : Nat} {ref : StreamWorkerRef} {r : TaskResult}

/-- The next stream gets an id that is in use nowhere. -/
def Fresh (c : TestController) : Prop := len c.streams ∉ c.streams ∧ len c.streams ∉ c.streamResults

/-- The stream of task `i`, worker `w`, has left the map. -/
def Left (c : TestController) (i : Nat) (w : Worker) : Prop := c.streams.lookup w.id ≠ some ⟨i⟩

/-- Every stream that was given the next id has left the map, and with an error. -/
def IdFree (c : TestController) : Prop :=
  ∀ p ∈ c.workers.zipIdx, p.1.id = len c.streams → c.Left p.2 p.1 ∧ p.1.pc = .done .err

instance (c : TestController) : Decidable c.IdFree := by
  unfold IdFree Left
  infer_instance

theorem IdFree.of_task (h : IdFree c) {i : Nat} {w : Worker} (hw : c.workers[i]? = some w) (hid : w.id = len c.streams) :
    c.Left i w ∧ w.pc = .done .err :=
  h (w, i) (List.mem_zipIdx_iff_getElem?.2 hw) hid

/-- Where the streams are: in the map, in the hands of the controller (`out`), or
in the results. -/
structure Accounts (c : TestController) (out : Map StreamWorkerRef) : Prop where
  listed : c.Listed
  taken : ∀ id ref, out.lookup id = some ref → c.Owns id ref
  apart : ∀ id ref, out.lookup id = some ref → c.streams.lookup id = none
  results : ∀ id stats, c.streamResults.lookup id = some stats →
    (∃ w ∈ c.workers, w.id = id ∧ w.pc = .done (.ok stats)) ∧ c.streams.lookup id = none ∧ out.lookup id = none

/-- No worker has lost its channel and its handle before it was joined, nor its
result after that. -/
def Tracked (c : TestController) (out : Map StreamWorkerRef) : Prop :=
  ∀ i w, c.workers[i]? = some w → c.streams.lookup w.id = some ⟨i⟩ ∨ out.lookup w.id = some ⟨i⟩ ∨
    w.pc = .done .err ∨ ∃ stats, w.pc = .done (.ok stats) ∧ c.streamResults.lookup w.id = some stats

theorem Accounts.new (test : PerfTest) (h : test.streams = ∅) : Accounts (TestController.new test) ∅ := by
  constructor
  · exact Listed.new test h
  · simp
  · simp
  · simp [TestController.new]

theorem Tracked.new (test : PerfTest) : Tracked (TestController.new test) ∅ := by
  intro i w hw
  simp [TestController.new] at hw

theorem Accounts.fresh (h : Accounts c out) (hf : c.IdFree) : c.Fresh := by
  constructor
  · -- the stream listed under the next id has not left
    intro hm
    obtain ⟨ref, hl⟩ := Finmap.mem_iff.1 hm
    obtain ⟨w, hw, hid⟩ := h.listed _ ref hl
    exact (hf.of_task hw hid).1 (hid ▸ hl)
  · -- a stream with a result has not failed
    intro hm
    obtain ⟨stats, hl⟩ := Finmap.mem_iff.1 hm
    obtain ⟨⟨w, hw, hid, hpc⟩, -⟩ := h.results _ stats hl
    obtain ⟨i, hi⟩ := List.getElem?_of_mem hw
    have herr := (hf.of_task hi hid).2
    rw [hpc] at herr
    cases herr

/-- The condition leaves out only registrations that go wrong. -/
theorem Tracked.idFree (h : Tracked c ∅) (hf : c.Fresh) : c.IdFree := by
  rintro ⟨w, i⟩ hw hid
  have hi := List.mem_zipIdx_iff_getElem?.1 hw
  have hnone : c.streams.lookup w.id = none := by
    rw [hid]
    exact Finmap.lookup_eq_none.2 hf.1
  have hleft : c.Left i w := by simp [Left, hnone]
  rcases h i w hi with hl | hl | herr | ⟨stats, -, hl⟩
  · exact absurd hl hleft
  · simp at hl
  · exact ⟨hleft, herr⟩
  · rw [hid] at hl
    exact absurd (Finmap.mem_iff.2 ⟨stats, hl⟩) hf.2

/-- A worker that runs is in the map or in the hands of the controller. -/
theorem Tracked.live (h : Tracked c out) {i : Nat} {w : Worker} (hw : c.workers[i]? = some w) (hd : w.isDone = false) :
    c.streams.lookup w.id = some ⟨i⟩ ∨ out.lookup w.id = some ⟨i⟩ := by
  rcases h i w hw with hl | hl | herr | ⟨stats, hok, -⟩
  · exact .inl hl
  · exact .inr hl
  · simp [Worker.isDone, WorkerPc.isDone, herr] at hd
  · simp [Worker.isDone, WorkerPc.isDone, hok] at hd

/-! ## What the operations do to the accounts -/

theorem Accounts.same (h : Accounts c out) (hw : d.workers.map Worker.stage = c.workers.map Worker.stage)
    (hs : d.streams = c.streams) (hr : d.streamResults = c.streamResults) : Accounts d out := by
  constructor
  · exact h.listed.sub hw (fun id ref hl => hs ▸ hl)
  · exact fun id ref hl => (h.taken id ref hl).same hw.symm
  · rw [hs]
    exact h.apart
  · rw [hs, hr]
    intro id stats hl
    obtain ⟨⟨w, hm, hid, hpc⟩, hnone⟩ := h.results id stats hl
    obtain ⟨i, hi⟩ := List.getElem?_of_mem hm
    obtain ⟨v, hv, hvw⟩ := getElem?_of_map_eq hw.symm hi
    exact ⟨⟨v, List.mem_of_getElem? hv, (congrArg Prod.fst hvw).trans hid, (congrArg (fun x => x.2.2.2) hvw).trans hpc⟩,
      hnone⟩

theorem Tracked.same (h : Tracked c out) (hw : d.workers.map Worker.stage = c.workers.map Worker.stage)
    (hs : d.streams = c.streams) (hr : d.streamResults = c.streamResults) : Tracked d out := by
  intro i w hi
  obtain ⟨v, hv, hvw⟩ := getElem?_of_map_eq hw hi
  have hid : v.id = w.id := congrArg Prod.fst hvw
  have hpc : v.pc = w.pc := congrArg (fun x => x.2.2.2) hvw
  rw [hs, hr, ← hid, ← hpc]
  exact h i v hv

theorem Accounts.register (h : Accounts c ∅) (hf : c.Fresh) (s : Nat) : Accounts (c.createAndRegisterStreamWorker s) ∅ := by
  constructor
  · exact h.listed.register s
  · simp
  · simp
  · intro id stats hl
    obtain ⟨⟨w, hm, hid, hpc⟩, hnone, hout⟩ := h.results id stats hl
    refine ⟨⟨w, List.mem_append_left _ hm, hid, hpc⟩, ?_, hout⟩
    have hne : id ≠ len c.streams := by
      rintro rfl
      exact hf.2 (Finmap.mem_iff.2 ⟨stats, hl⟩)
    rw [← hnone]
    exact Finmap.lookup_insert_of_ne _ hne

theorem Tracked.register (h : Tracked c ∅) (hf : c.Fresh) (s : Nat) : Tracked (c.createAndRegisterStreamWorker s) ∅ := by
  intro i w hi
  rcases getElem?_concat_iff.1 hi with hi | ⟨rfl, rfl⟩
  · rcases h i w hi with hl | hrest
    · refine .inl (lookup_insert_iff.2 (.inr ⟨?_, hl⟩))
      intro he
      exact hf.1 (Finmap.mem_iff.2 ⟨_, he ▸ hl⟩)
    · exact .inr hrest
  · exact .inl (lookup_insert_iff.2 (.inl ⟨rfl, rfl⟩))

theorem Accounts.workerStep {alive o : Bool} {i : Nat} {e : WorkerEvent} (h : Accounts c out)
    (hs : c.workerStep alive o i e = some d) : Accounts d out := by
  obtain ⟨w, w', hw, hstep, hd, ht, -⟩ := workerStep_spec hs
  constructor
  · exact h.listed.workerStep hs
  · exact fun id ref hl => (h.taken id ref hl).workerStep hs
  · rw [ht]
    exact h.apart
  · rw [workerStep_results hs, ht]
    intro id stats hl
    obtain ⟨⟨v, hm, hid, hpc⟩, hnone⟩ := h.results id stats hl
    refine ⟨⟨v, ?_, hid, hpc⟩, hnone⟩
    obtain ⟨j, hj⟩ := List.getElem?_of_mem hm
    have hne : j ≠ i := by
      rintro rfl
      have hrun := (Worker.step_spec hstep).2.2.2
      rw [hw, Option.some.injEq] at hj
      rw [hj, Worker.isDone, hpc] at hrun
      cases hrun
    rw [hd]
    exact List.mem_of_getElem? ((getElem?_set_iff (lt_of_getElem? hw)).2 (.inr ⟨hne, hj⟩))

theorem Tracked.workerStep {alive o : Bool} {i : Nat} {e : WorkerEvent} (h : Tracked c out)
    (hs : c.workerStep alive o i e = some d) : Tracked d out := by
  obtain ⟨w, w', hw, hstep, hd, ht, -⟩ := workerStep_spec hs
  obtain ⟨hid, -, -, hrun⟩ := Worker.step_spec hstep
  intro j v hj
  rw [hd, getElem?_set_iff (lt_of_getElem? hw)] at hj
  rw [ht, workerStep_results hs]
  rcases hj with ⟨rfl, rfl⟩ | ⟨-, hj⟩
  · rw [hid]
    rcases h.live hw hrun with hl | hl
    · exact .inl hl
    · exact .inr (.inl hl)
  · exact h j v hj

/-- A stream leaves the map for the hands of the controller. -/
theorem Accounts.take (h : Accounts c ∅) (hl : c.streams.lookup id = some ref) :
    Accounts { c with streams := c.streams.erase id } ((∅ : Map StreamWorkerRef).insert id ref) := by
  constructor
  · exact fun id' ref' hl' => h.listed id' ref' (lookup_erase_iff.1 hl').2
  · intro id' ref' hl'
    rcases lookup_insert_iff.1 hl' with ⟨rfl, rfl⟩ | ⟨-, hl'⟩
    · exact h.listed _ _ hl
    · simp at hl'
  · intro id' ref' hl'
    rcases lookup_insert_iff.1 hl' with ⟨rfl, rfl⟩ | ⟨-, hl'⟩
    · exact Finmap.lookup_erase _ _
    · simp at hl'
  · intro id' stats hl'
    obtain ⟨hex, hnone, -⟩ := h.results id' stats hl'
    have hne : id' ≠ id := by
      rintro rfl
      rw [hl] at hnone
      cases hnone
    refine ⟨hex, ?_, ?_⟩
    · rw [← hnone]
      exact Finmap.lookup_erase_ne hne
    · rw [Finmap.lookup_insert_of_ne _ hne, Finmap.lookup_empty]

theorem Tracked.take (h : Tracked c ∅) (hl : c.streams.lookup id = some ref) :
    Tracked { c with streams := c.streams.erase id } ((∅ : Map StreamWorkerRef).insert id ref) := by
  intro i w hi
  rcases h i w hi with hw | hw | hrest
  · by_cases he : w.id = id
    · rw [he, hl, Option.some.injEq] at hw
      exact .inr (.inl (lookup_insert_iff.2 (.inl ⟨he, hw⟩)))
    · exact .inl (lookup_erase_iff.2 ⟨he, hw⟩)
  · simp at hw
  · exact .inr (.inr hrest)

theorem Accounts.drop (h : Accounts c out) (id : Nat) : Accounts c (out.erase id) := by
  constructor
  · exact h.listed
  · exact fun id' ref' hl => h.taken id' ref' (lookup_erase_iff.1 hl).2
  · exact fun id' ref' hl => h.apart id' ref' (lookup_erase_iff.1 hl).2
  · intro id' stats hl
    obtain ⟨hex, hnone, hout⟩ := h.results id' stats hl
    refine ⟨hex, hnone, ?_⟩
    rw [Finmap.lookup_eq_none] at hout ⊢
    exact fun hm => hout (Finmap.mem_erase.1 hm).2

/-- The stream in the hands of the controller has no result yet. -/
theorem Accounts.keeps (h : Accounts c out) (hl : out.lookup id = some ref) {id' : Nat} {stats : StreamStats}
    (hr : c.streamResults.lookup id' = some stats) : (c.keepResult id r).streamResults.lookup id' = some stats := by
  have hne : id' ≠ id := by
    rintro rfl
    have hnone := (h.results _ _ hr).2.2
    rw [hl] at hnone
    cases hnone
  cases r with
  | ok s => exact lookup_insert_iff.2 (.inr ⟨hne, hr⟩)
  | _ => exact hr

theorem Accounts.join (h : Accounts c out) (hl : out.lookup id = some ref) (hr : c.taskResult ref = some r) :
    Accounts (c.keepResult id r) (out.erase id) := by
  have hd := h.drop id
  have hnone := h.apart id ref hl
  obtain ⟨w, hw, hid⟩ := h.taken id ref hl
  have hpc := pc_of_taskResult hw hr
  cases r with
  | ok stats =>
    refine ⟨hd.listed, hd.taken, hd.apart, ?_⟩
    intro id' stats' hl'
    rcases lookup_insert_iff.1 hl' with ⟨rfl, rfl⟩ | ⟨-, hl'⟩
    · exact ⟨⟨w, List.mem_of_getElem? hw, hid, hpc⟩, hnone, Finmap.lookup_erase _ _⟩
    · exact hd.results id' stats' hl'
  | _ => exact hd

theorem Tracked.join (h : Tracked c out) (ha : Accounts c out) (hl : out.lookup id = some ref) (hr : c.taskResult ref = some r)
    (hp : r ≠ .panicked) : Tracked (c.keepResult id r) (out.erase id) := by
  obtain ⟨v, hv, hid⟩ := ha.taken id ref hl
  have hpc := pc_of_taskResult hv hr
  intro i w hi
  rw [keepResult_workers] at hi
  rw [keepResult_test]
  rcases h i w hi with hw | hw | herr | ⟨stats, hok, hw⟩
  · exact .inl hw
  · by_cases he : w.id = id
    · rw [he, hl, Option.some.injEq] at hw
      subst hw
      rw [hi, Option.some.injEq] at hv
      subst hv
      cases r with
      | ok stats => exact .inr (.inr (.inr ⟨stats, hpc, lookup_insert_iff.2 (.inl ⟨hid, rfl⟩)⟩))
      | err => exact .inr (.inr (.inl hpc))
      | panicked => exact absurd rfl hp
    · exact .inr (.inl (lookup_erase_iff.2 ⟨he, hw⟩))
  · exact .inr (.inr (.inl herr))
  · exact .inr (.inr (.inr ⟨stats, hok, ha.keeps hl hw⟩))

theorem erase_insert_empty (id : Nat) (ref : StreamWorkerRef) : ((∅ : Map StreamWorkerRef).insert id ref).erase id = ∅ := by
  apply Finmap.ext_lookup
  intro k
  by_cases h : k = id
  · rw [h, Finmap.lookup_erase, Finmap.lookup_empty]
  · rw [Finmap.lookup_erase_ne h, Finmap.lookup_insert_of_ne _ h]

/-- The stream of a notice is joined. -/
theorem Accounts.joined (h : Accounts c ((∅ : Map StreamWorkerRef).insert id ref)) (hr : c.taskResult ref = some r) :
    Accounts (c.keepResult id r) ∅ := by
  have hj := h.join (Finmap.lookup_insert _) hr
  rwa [erase_insert_empty] at hj

theorem Tracked.joined (h : Tracked c ((∅ : Map StreamWorkerRef).insert id ref))
    (ha : Accounts c ((∅ : Map StreamWorkerRef).insert id ref)) (hr : c.taskResult ref = some r) (hp : r ≠ .panicked) :
    Tracked (c.keepResult id r) ∅ := by
  have hj := h.join ha (Finmap.lookup_insert _) hr hp
  rwa [erase_insert_empty] at hj

/-- The final drain takes all streams at once. -/
theorem Accounts.drain (h : Accounts c ∅) : Accounts { c with streams := ∅ } c.streams := by
  constructor
  · intro id ref hl
    simp at hl
  · exact h.listed
  · simp
  · intro id stats hl
    obtain ⟨hex, hnone, -⟩ := h.results id stats hl
    exact ⟨hex, by simp, hnone⟩

end TestController

/-! ## The server -/

namespace ServerTest

variable {t u : ServerTest} {e : ServerEvent}

/-- The refs that the controller has taken out of the map and not joined. -/
def held (t : ServerTest) : Map StreamWorkerRef :=
  match t.pc with
  | .joining id ref => (∅ : Map StreamWorkerRef).insert id ref
  | .collecting pending => pending
  | _ => ∅

/-- Before the final drain. -/
def tending (t : ServerTest) : Bool :=
  match t.pc with
  | .collecting _ | .readingResults _ | .sendingResults _ _ | .returned _ => false
  | _ => true

/-- The event is a call of `accept_stream`. -/
def registers (t : ServerTest) : ServerEvent → Bool
  | .recv =>
    match t.queue with
    | .createStream _ :: _ => true
    | _ => false
  | _ => false

/-- A registration finds the next id free. -/
def FreeToRegister (t : ServerTest) (e : ServerEvent) : Prop := t.registers e = true → t.IdFree

instance (t : ServerTest) (e : ServerEvent) : Decidable (t.FreeToRegister e) := by
  unfold FreeToRegister
  infer_instance

/-- Every stream is accounted for, and until the final drain none is lost. -/
structure Accounted (t : ServerTest) : Prop where
  accounts : t.Accounts t.held
  kept : t.tending = true → t.Tracked t.held

theorem Accounted.new (cookie : String) (params : TestParameters) : Accounted (new cookie params) :=
  ⟨.new _ rfl, fun _ => .new _⟩

theorem Accounted.same (h : Accounted t) (hw : u.workers.map Worker.stage = t.workers.map Worker.stage)
    (hs : u.streams = t.streams) (hr : u.streamResults = t.streamResults) (hh : u.held = t.held)
    (ht : u.tending = true → t.tending = true) : Accounted u :=
  ⟨hh ▸ h.accounts.same hw hs hr, fun hu => hh ▸ (h.kept (ht hu)).same hw hs hr⟩

theorem held_idle (h : t.idle = true) : t.held = ∅ := by
  unfold idle at h
  unfold held
  split at h <;> simp_all

theorem held_collectNext (pending : Map StreamWorkerRef) : (t.collectNext pending).held = pending := by
  by_cases h : len pending = 0
  · simp [collectNext, held, len_eq_zero.1 h]
  · simp [collectNext, held, h]

theorem tending_collectNext (pending : Map StreamWorkerRef) : (t.collectNext pending).tending = false := by
  by_cases h : len pending = 0 <;> simp [collectNext, tending, h]

theorem accounted_step (h : Step t e u) (hc : t.FreeToRegister e) (hi : Accounted t) : Accounted u := by
  cases h with
  | startLoad _ hpc =>
    exact hi.same (TestController.broadcast_stage _ _) rfl rfl (by simp [held, hpc]) (by simp [tending, hpc])
  | finish _ hpc =>
    have ha : t.Accounts ∅ := by simpa [held, hpc] using hi.accounts
    refine ⟨?_, by simp [tending_collectNext]⟩
    rw [held_collectNext]
    exact (ha.same (d := t.broadcastToStreams .terminate) (TestController.broadcast_stage _ _) rfl rfl).drain
  | @accept _ rest hpc hq =>
    have hheld : t.held = ∅ := by simp [held, hpc]
    have ha := hheld ▸ hi.accounts
    have hk := hheld ▸ hi.kept (by simp [tending, hpc])
    have hf := ha.fresh (hc (by simp [registers, hq]))
    refine ⟨?_, fun _ => ?_⟩
    · rw [held_idle (acceptStream_idle _)]
      exact (ha.same (d := { t.toTestController with queue := rest }) rfl rfl rfl).register hf _
    · rw [held_idle (acceptStream_idle _)]
      exact (hk.same (d := { t.toTestController with queue := rest }) rfl rfl rfl).register hf _
  | @terminated id ref rest hpc hq hl =>
    have hheld : t.held = ∅ := by simp [held, hpc]
    have ha := hheld ▸ hi.accounts
    have hk := hheld ▸ hi.kept (by simp [tending, hpc])
    exact ⟨(ha.take hl).same rfl rfl rfl, fun _ => (hk.take hl).same rfl rfl rfl⟩
  | @joined id ref r hpc hres hne =>
    have hheld : t.held = (∅ : Map StreamWorkerRef).insert id ref := by simp [held, hpc]
    have ha := hheld ▸ hi.accounts
    have hk := hheld ▸ hi.kept (by simp [tending, hpc])
    refine ⟨?_, fun _ => ?_⟩
    · rw [held_idle afterTermination_idle]
      exact ha.joined hres
    · rw [held_idle afterTermination_idle]
      exact hk.joined ha hres hne
  | @collected id pending ref r hpc hl hres =>
    have hheld : t.held = pending := by simp [held, hpc]
    refine ⟨?_, by simp [tending_collectNext]⟩
    rw [held_collectNext]
    exact (hheld ▸ hi.accounts).join hl hres
  | @timedOut id pending ref hpc =>
    have hheld : t.held = pending := by simp [held, hpc]
    refine ⟨?_, by simp [tending_collectNext]⟩
    rw [held_collectNext]
    exact (hheld ▸ hi.accounts).drop _
  | worker hw => exact ⟨hi.accounts.workerStep hw, fun ht => (hi.kept ht).workerStep hw⟩
  | unknown hpc =>
    refine hi.same rfl rfl rfl ?_ (by simp [tending, hpc])
    rw [held_idle afterTermination_idle]
    simp [held, hpc]
  | start _ hpc | announce _ hpc | wait _ hpc | store _ hpc | wrote hpc | writeFailed hpc | writeIgnored hpc
  | sentResults hpc | sendFailed hpc | readFailed hpc | readResults hpc | readOther hpc =>
    exact hi.same rfl rfl rfl (by simp [held, hpc]) (by simp [tending, hpc])
  | @joinFailed id ref hpc =>
    have hheld : t.held = (∅ : Map StreamWorkerRef).insert id ref := by simp [held, hpc]
    have hdrop := hi.accounts.drop id
    rw [hheld, TestController.erase_insert_empty] at hdrop
    exact ⟨hdrop.same rfl rfl rfl, by simp [tending]⟩
  | guard | unguard | offer | vanish => exact hi.same rfl rfl rfl rfl id

theorem accounted_run {cookie : String} {params : TestParameters} {es : List ServerEvent}
    (h : Run step FreeToRegister (new cookie params) es t) : Accounted t := by
  apply h.inv Accounted (.new cookie params)
  intro t e u hi hc hs
  exact accounted_step (step_cases hs) hc hi

/-- What has been recorded for a stream stays. -/
theorem Accounted.results_step (hi : Accounted t) (h : Step t e u) {id : Nat} {stats : StreamStats}
    (hl : t.streamResults.lookup id = some stats) : u.streamResults.lookup id = some stats := by
  cases h with
  | @joined id' ref r hpc =>
    have hheld : t.held.lookup id' = some ref := by simp [held, hpc, Finmap.lookup_insert]
    exact hi.accounts.keeps hheld hl
  | @collected id' pending ref r hpc hp =>
    have hheld : t.held.lookup id' = some ref := by simpa [held, hpc] using hp
    exact hi.accounts.keeps hheld hl
  | worker hw =>
    rw [← TestController.workerStep_results hw] at hl
    exact hl
  | _ => exact hl

/-- A worker that runs still has its channel and its handle. -/
theorem Accounted.live (hi : Accounted t) (ht : t.tending = true) {i : Nat} {w : Worker} (hw : t.workers[i]? = some w)
    (hd : w.isDone = false) : t.streams.lookup w.id = some ⟨i⟩ ∨ t.pc = .joining w.id ⟨i⟩ := by
  rcases (hi.kept ht).live hw hd with hl | hl
  · exact .inl hl
  · right
    cases hpc : t.pc with
    | joining id ref =>
      simp only [held, hpc, lookup_insert_iff, Finmap.lookup_empty, reduceCtorEq, and_false, or_false] at hl
      rw [hl.1, hl.2]
    | collecting pending => simp [tending, hpc] at ht
    | _ => simp [held, hpc] at hl

end ServerTest

/-! ## The client -/

namespace ClientTest

variable {t u : ClientTest} {e : ClientEvent}

/-- The refs that the controller has taken out of the map and not joined. -/
def held (t : ClientTest) : Map StreamWorkerRef :=
  match t.pc with
  | .joining id ref => (∅ : Map StreamWorkerRef).insert id ref
  | .collecting pending => pending
  | _ => ∅

/-- Before the final drain. -/
def tending (t : ClientTest) : Bool :=
  match t.pc with
  | .collecting _ | .sendingResults _ | .readingResults _ | .returned _ => false
  | _ => true

/-- The event is a stream that `create_streams` has connected. -/
def registers : ClientEvent → Bool
  | .connect (some _) => true
  | _ => false

/-- A registration finds the next id free. -/
def FreeToRegister (t : ClientTest) (e : ClientEvent) : Prop := registers e = true → t.IdFree

instance (t : ClientTest) (e : ClientEvent) : Decidable (t.FreeToRegister e) := by
  unfold FreeToRegister
  infer_instance

/-- Every stream is accounted for, and until the final drain none is lost. -/
structure Accounted (t : ClientTest) : Prop where
  accounts : t.Accounts t.held
  kept : t.tending = true → t.Tracked t.held

theorem Accounted.new (cookie : String) (params : TestParameters) : Accounted (new cookie params) :=
  ⟨.new _ rfl, fun _ => .new _⟩

theorem Accounted.same (h : Accounted t) (hw : u.workers.map Worker.stage = t.workers.map Worker.stage)
    (hs : u.streams = t.streams) (hr : u.streamResults = t.streamResults) (hh : u.held = t.held)
    (ht : u.tending = true → t.tending = true) : Accounted u :=
  ⟨hh ▸ h.accounts.same hw hs hr, fun hu => hh ▸ (h.kept (ht hu)).same hw hs hr⟩

theorem held_idle (h : t.idle = true) : t.held = ∅ := by
  unfold idle at h
  unfold held
  split at h <;> simp_all

theorem held_collectNext (pending : Map StreamWorkerRef) : (t.collectNext pending).held = pending := by
  by_cases h : len pending = 0
  · simp [collectNext, held, len_eq_zero.1 h]
  · simp [collectNext, held, h]

theorem tending_collectNext (pending : Map StreamWorkerRef) : (t.collectNext pending).tending = false := by
  by_cases h : len pending = 0 <;> simp [collectNext, tending, h]

theorem accounted_step (h : Step t e u) (hc : t.FreeToRegister e) (hi : Accounted t) : Accounted u := by
  cases h with
  | startLoad hpc =>
    exact hi.same (TestController.broadcast_stage _ _) rfl rfl (by simp [held, hpc]) (by simp [tending, hpc])
  | finish hpc =>
    have ha : t.Accounts ∅ := by simpa [held, hpc] using hi.accounts
    refine ⟨?_, by simp [tending_collectNext]⟩
    rw [held_collectNext]
    exact (ha.same (d := t.broadcastToStreams .terminate) (TestController.broadcast_stage _ _) rfl rfl).drain
  | connected hpc =>
    have hheld : t.held = ∅ := by simp [held, hpc]
    have ha := hheld ▸ hi.accounts
    have hk := hheld ▸ hi.kept (by simp [tending, hpc])
    have hf := ha.fresh (hc rfl)
    refine ⟨?_, fun _ => ?_⟩
    · rw [held_idle createStreams_idle]
      exact ha.register hf _
    · rw [held_idle createStreams_idle]
      exact hk.register hf _
  | create hpc =>
    refine hi.same rfl rfl rfl ?_ (by simp [tending, hpc])
    rw [held_idle createStreams_idle]
    simp [held, hpc]
  | @terminated id ref rest hpc hq hl =>
    have hheld : t.held = ∅ := by simp [held, hpc]
    have ha := hheld ▸ hi.accounts
    have hk := hheld ▸ hi.kept (by simp [tending, hpc])
    exact ⟨(ha.take hl).same rfl rfl rfl, fun _ => (hk.take hl).same rfl rfl rfl⟩
  | @joined id ref r hpc hres hne =>
    have hheld : t.held = (∅ : Map StreamWorkerRef).insert id ref := by simp [held, hpc]
    have ha := hheld ▸ hi.accounts
    have hk := hheld ▸ hi.kept (by simp [tending, hpc])
    exact ⟨ha.joined hres, fun _ => hk.joined ha hres hne⟩
  | @collected id pending ref r hpc hl hres =>
    have hheld : t.held = pending := by simp [held, hpc]
    refine ⟨?_, by simp [tending_collectNext]⟩
    rw [held_collectNext]
    exact (hheld ▸ hi.accounts).join hl hres
  | @timedOut id pending ref hpc =>
    have hheld : t.held = pending := by simp [held, hpc]
    refine ⟨?_, by simp [tending_collectNext]⟩
    rw [held_collectNext]
    exact (hheld ▸ hi.accounts).drop _
  | @joinFailed id ref hpc =>
    have hheld : t.held = (∅ : Map StreamWorkerRef).insert id ref := by simp [held, hpc]
    have hdrop := hi.accounts.drop id
    rw [hheld, TestController.erase_insert_empty] at hdrop
    exact ⟨hdrop.same rfl rfl rfl, by simp [tending]⟩
  | worker hw => exact ⟨hi.accounts.workerStep hw, fun ht => (hi.kept ht).workerStep hw⟩
  | start hpc | select hpc | store hpc | intruded hpc | unknown hpc | told hpc | surprised hpc | failed hpc
  | readResults hpc | readOther hpc | denied hpc | sentResults hpc | sendFailed hpc =>
    exact hi.same rfl rfl rfl (by simp [held, hpc]) (by simp [tending, hpc])

theorem accounted_run {cookie : String} {params : TestParameters} {es : List ClientEvent}
    (h : Run step FreeToRegister (new cookie params) es t) : Accounted t := by
  apply h.inv Accounted (.new cookie params)
  intro t e u hi hc hs
  exact accounted_step (step_cases hs) hc hi

/-- What has been recorded for a stream stays. -/
theorem Accounted.results_step (hi : Accounted t) (h : Step t e u) {id : Nat} {stats : StreamStats}
    (hl : t.streamResults.lookup id = some stats) : u.streamResults.lookup id = some stats := by
  cases h with
  | @joined id' ref r hpc =>
    have hheld : t.held.lookup id' = some ref := by simp [held, hpc, Finmap.lookup_insert]
    exact hi.accounts.keeps hheld hl
  | @collected id' pending ref r hpc hp =>
    have hheld : t.held.lookup id' = some ref := by simpa [held, hpc] using hp
    exact hi.accounts.keeps hheld hl
  | worker hw =>
    rw [← TestController.workerStep_results hw] at hl
    exact hl
  | _ => exact hl

/-- A worker that runs still has its channel and its handle. -/
theorem Accounted.live (hi : Accounted t) (ht : t.tending = true) {i : Nat} {w : Worker} (hw : t.workers[i]? = some w)
    (hd : w.isDone = false) : t.streams.lookup w.id = some ⟨i⟩ ∨ t.pc = .joining w.id ⟨i⟩ := by
  rcases (hi.kept ht).live hw hd with hl | hl
  · exact .inl hl
  · right
    cases hpc : t.pc with
    | joining id ref =>
      simp only [held, hpc, lookup_insert_iff, Finmap.lookup_empty, reduceCtorEq, and_false, or_false] at hl
      rw [hl.1, hl.2]
    | collecting pending => simp [tending, hpc] at ht
    | _ => simp [held, hpc] at hl

end ClientTest

/-! ## Both ends -/

/-- At either end, while every registration finds the next id free: a
registration gets an id that is in use nowhere exactly when it finds it free, no
worker loses its channel and its handle while it runs, and no result is overwritten. -/
theorem ids_fresh (cookie : String) (params : TestParameters) :
    (∀ es t, Run ServerTest.step ServerTest.FreeToRegister (ServerTest.new cookie params) es t →
      (t.pc = .waiting → (t.Fresh ↔ t.IdFree)) ∧
      (t.tending = true → ∀ i w, t.workers[i]? = some w → w.isDone = false →
        t.streams.lookup w.id = some ⟨i⟩ ∨ t.pc = .joining w.id ⟨i⟩) ∧
      ∀ e u, t.step e = some u → ∀ id stats, t.streamResults.lookup id = some stats →
        u.streamResults.lookup id = some stats) ∧
    (∀ es t, Run ClientTest.step ClientTest.FreeToRegister (ClientTest.new cookie params) es t →
      (t.pc = .connecting → (t.Fresh ↔ t.IdFree)) ∧
      (t.tending = true → ∀ i w, t.workers[i]? = some w → w.isDone = false →
        t.streams.lookup w.id = some ⟨i⟩ ∨ t.pc = .joining w.id ⟨i⟩) ∧
      ∀ e u, t.step e = some u → ∀ id stats, t.streamResults.lookup id = some stats →
        u.streamResults.lookup id = some stats) := by
  constructor
  · intro es t h
    have hi := ServerTest.accounted_run h
    refine ⟨?_, ?_, ?_⟩
    · intro hpc
      have hk := hi.kept (by simp [ServerTest.tending, hpc])
      rw [show t.held = ∅ by simp [ServerTest.held, hpc]] at hk
      exact ⟨hk.idFree, hi.accounts.fresh⟩
    · intro ht i w hw hd
      exact hi.live ht hw hd
    · intro e u hu id stats hl
      exact hi.results_step (ServerTest.step_cases hu) hl
  · intro es t h
    have hi := ClientTest.accounted_run h
    refine ⟨?_, ?_, ?_⟩
    · intro hpc
      have hk := hi.kept (by simp [ClientTest.tending, hpc])
      rw [show t.held = ∅ by simp [ClientTest.held, hpc]] at hk
      exact ⟨hk.idFree, hi.accounts.fresh⟩
    · intro ht i w hw hd
      exact hi.live ht hw hd
    · intro e u hu id stats hl
      exact hi.results_step (ClientTest.step_cases hu) hl

/-- Three streams of a download: the sender of one fails before the load, and its notice is handled. -/
def ServerTest.failedRun (i : Nat) : List ServerEvent :=
  ServerTest.announceRun ++ ([.guard, .offer 0, .recv, .lock, .guard, .offer 1, .recv, .lock] : List ServerEvent) ++
    [.worker i .fail, .recv, .join, .lock, .guard, .offer 2]

def downloadParams (parallel : UInt16) : TestParameters := { uploadParams parallel with direction := .serverToClient }

/-- The last of two streams leaves, and its id is given again. -/
theorem ids_fresh_last :
    ∃ t, Run ServerTest.step ServerTest.FreeToRegister (ServerTest.new "c" (downloadParams 3))
        (ServerTest.failedRun 1) t ∧ t.workers.length = 2 ∧ len t.streams = 1 ∧ t.Fresh := by
  obtain ⟨t, h, ht⟩ := exists_run_of_exec ServerTest.step ServerTest.FreeToRegister
    (ServerTest.new "c" (downloadParams 3)) (ServerTest.failedRun 1)
    (fun t => t.pc = .waiting ∧ t.workers.length = 2 ∧ len t.streams = 1 ∧ t.IdFree) (by decide +kernel)
  simp only [decide_eq_true_eq] at ht
  exact ⟨t, h, ht.2.1, ht.2.2.1, ((((ids_fresh "c" (downloadParams 3)).1 _ t h).1 ht.1).2 ht.2.2.2)⟩

/-- The first of two leaves: the next one gets the id of the other, whose
channel and handle are dropped while it runs. -/
theorem id_given_twice :
    ∃ t u, Reach ServerTest.step (ServerTest.new "c" (downloadParams 3)) t ∧ t.step .recv = some u ∧
      t.streams.lookup 1 = some ⟨1⟩ ∧ u.streams.lookup 1 = some ⟨2⟩ ∧
      u.workers.map Worker.id = [0, 1, 1] ∧ u.workers.map Worker.isDone = [true, false, false] := by
  obtain ⟨t, h, ht⟩ := exists_of_exec ServerTest.step (ServerTest.new "c" (downloadParams 3)) (ServerTest.failedRun 0)
    (fun t => t.streams.lookup 1 = some ⟨1⟩ ∧ (t.step .recv).any (fun u => u.streams.lookup 1 = some ⟨2⟩ ∧
      u.workers.map Worker.id = [0, 1, 1] ∧ u.workers.map Worker.isDone = [true, false, false])) (by decide +kernel)
  simp only [Option.any_eq_true, decide_eq_true_eq] at ht
  obtain ⟨hl, u, hu, hrest⟩ := ht
  exact ⟨t, u, h, hu, hl, hrest⟩

end Netperf
