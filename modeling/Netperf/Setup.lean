import Netperf.Announced
import Netperf.Admission
/-!
# The setup of a test

From the creation of a test to `Running` at both ends. The server waits for
streams, the client makes them, and the server leaves `CreateStreams` only when
a stream arrives: a test that needs none never starts. In a session without
third parties and I/O failures, some part can always go on until both ends run.
-/

namespace Netperf

open Maps Frames Runs Lists

namespace TestController
variable {c : TestController}

theorem Numbered.nodup (h : Numbered c) : (c.workers.map Worker.id).Nodup := by
  rw [List.nodup_iff_injective_get]
  intro i j hij
  have hi := h.ids i _ (List.getElem?_eq_getElem (by simpa using i.isLt))
  have hj := h.ids j _ (List.getElem?_eq_getElem (by simpa using j.isLt))
  simp only [List.get_eq_getElem, List.getElem_map] at hij
  apply Fin.ext
  rw [← hi, ← hj, hij]

end TestController

/-! ## The server's end -/

/-- The controller's reads and writes succeed, and its client stays. -/
def ServerEvent.unfailing : ServerEvent → Bool
  | .write ok => ok
  | .read m => m.isSome
  | .vanish => false
  | _ => true

namespace ServerTest
variable {t u : ServerTest} {e : ServerEvent} {cookie : String} {params : TestParameters}

/-- A task that is joined after its notice is over and did not panic. -/
theorem joinable (h : Reach step (new cookie params) t) (hn : t.Numbered) {id : Nat} {ref : StreamWorkerRef}
    (hpc : t.pc = .joining id ref) : ∃ r, t.taskResult ref = some r ∧ r ≠ .panicked := by
  obtain ⟨es, h⟩ := h
  exact ((collects_run h hn.nodup).joining id ref hpc).2

/-- The test is not abandoned and does not fail. -/
structure Advancing (t : ServerTest) : Prop where
  short : t.returned = false → t.nextState.gathering = true → t.workers.length < t.totalNeededStreams
  unabandoned : t.nextState = .exchangeResults → 2 ≤ t.state.rank
  unfailed : t.pc ≠ .returned none ∧ ∀ results, t.pc ≠ .sendingResults results none
  ended : t.returned = true → t.state = .exchangeResults

theorem Advancing.new (h : (new cookie params).totalNeededStreams ≠ 0) : Advancing (new cookie params) := by
  refine ⟨fun _ _ => Nat.pos_of_ne_zero h, ?_, ⟨by simp [ServerTest.new], by simp [ServerTest.new]⟩, ?_⟩
  · rintro ⟨⟩
  · rintro ⟨⟩

/-- A step that keeps the workers and the state to come. -/
theorem Advancing.same (hi : Advancing t) (hr : u.returned = t.returned) (hn : u.nextState = t.nextState)
    (hw : u.workers.length = t.workers.length) (ht : u.totalNeededStreams = t.totalNeededStreams)
    (hs : u.state = t.state) (hpc : u.pc ≠ .returned none ∧ ∀ results, u.pc ≠ .sendingResults results none) :
    Advancing u := by
  refine ⟨?_, ?_, hpc, ?_⟩
  · rw [hr, hn, hw, ht]
    exact hi.short
  · rw [hn, hs]
    exact hi.unabandoned
  · rw [hr, hs]
    exact hi.ended

/-- While streams are missing no notice is handled. -/
theorem Advancing.load (hi : Advancing t) (hp : Phase t) (hpc : t.pc = .waiting ∨ ∃ id ref, t.pc = .joining id ref)
    (hg : t.totalNeededStreams ≤ t.workers.length ∨ Gathers t) (hn : ¬ Gathers t) : t.state = .running := by
  have hfull := hg.resolve_right hn
  have hserving : Serving t.cookie t.state ∧ t.nextState = t.state ∧ t.returned = false := by
    rcases hpc with hpc | ⟨id, ref, hpc⟩
    · simp only [Phase, hpc] at hp
      exact ⟨hp.2, by simp [nextState, hpc], by simp [returned, hpc]⟩
    · simp only [Phase, hpc] at hp
      exact ⟨hp.2, by simp [nextState, hpc], by simp [returned, hpc]⟩
  obtain ⟨hs | hs, hnext, hr⟩ := hserving
  · have := hi.short hr (by simp [hnext, hs, State.gathering])
    omega
  · exact hs

theorem Advancing.accept (hi : Advancing t) (hp : Phase t) (hn : t.Numbered) (hpc : t.pc = .waiting)
    (hg : t.totalNeededStreams ≤ t.workers.length ∨ Gathers t) (n : Nat) (rest handled : List ControllerMessage) :
    Advancing ({ t with queue := rest, handled := handled }.acceptStream n) := by
  have hr : t.returned = false := by simp [returned, hpc]
  simp only [Phase, hpc] at hp
  have hnext : t.nextState = t.state := by simp [nextState, hpc]
  by_cases hfull : len (t.createAndRegisterStreamWorker n).streams = t.totalNeededStreams
  · have hpc' : ({ t with queue := rest, handled := handled }.acceptStream n).pc = .writingState .running .propagate :=
      if_pos hfull
    refine ⟨?_, ?_, ⟨by simp [hpc'], by simp [hpc']⟩, by simp⟩
    · intro _ h
      simp [nextState, hpc', State.gathering] at h
    · intro h
      simp [nextState, hpc'] at h
  · have hpc' : ({ t with queue := rest, handled := handled }.acceptStream n).pc = .loopTop := if_neg hfull
    refine ⟨?_, ?_, ⟨by simp [hpc'], by simp [hpc']⟩, by simp⟩
    · intro _ h
      have hstate : t.nextState.gathering = true := by
        simp only [nextState, hpc'] at h
        rw [hnext]
        exact h
      have hlt := hi.short hr hstate
      have hue := (hg.resolve_left (by omega)).unended
      have hsize := (hn.register hue.size n).2
      have hlen : ({ t with queue := rest, handled := handled }.acceptStream n).workers.length = t.workers.length + 1 := by
        simp [TestController.createAndRegisterStreamWorker]
      have htotal : ({ t with queue := rest, handled := handled }.acceptStream n).totalNeededStreams =
          t.totalNeededStreams := rfl
      rw [hlen, htotal]
      omega
    · intro h
      simp only [nextState, hpc'] at h
      have hs : t.state = .exchangeResults := h
      rcases hp.2 with h' | h' <;> simp [hs] at h'

theorem Advancing.afterTermination (hp : t.state = .running) (hw : u.afterTermination.state = t.state) :
    Advancing u.afterTermination := by
  have hs : u.state = .running := by simpa [hp] using hw
  refine ⟨?_, ?_, ?_, by simp⟩
  · intro _ h
    by_cases hc : len u.streams = 0 <;> simp [nextState, ServerTest.afterTermination, hc, hs, State.gathering] at h
  · intro _
    simp [hs, State.rank]
  · by_cases hc : len u.streams = 0 <;> simp [ServerTest.afterTermination, hc]

theorem Advancing.collectNext (hs : t.state = .exchangeResults) (pending : Map StreamWorkerRef) :
    Advancing (t.collectNext pending) := by
  refine ⟨?_, ?_, ?_, by simp⟩
  · intro _ h
    rw [collectNext_nextState, hs] at h
    cases h
  · intro _
    simp [hs, State.rank]
  · by_cases hc : len pending = 0 <;> simp [ServerTest.collectNext, hc]

/-- What fails a test's own steps is left out; the client answers with results,
and every task joined has returned. -/
theorem advancing_step (h : Step t e u) (hp : Phase t) (hn : t.Numbered)
    (hg : t.returned = false → t.totalNeededStreams ≤ t.workers.length ∨ Gathers t) (he : e.unfailing = true)
    (hread : ∀ results m, t.pc = .readingResults results → e = .read (some m) → ∃ r, m = .sendResults r)
    (hjoin : ∀ id ref, t.pc = .joining id ref → ∃ r, t.taskResult ref = some r ∧ r ≠ .panicked)
    (hi : Advancing t) : Advancing u := by
  cases h with
  | start _ hpc => exact hi.same (by simp [returned, hpc]) (by simp [nextState, hpc]) rfl rfl rfl (by simp)
  | announce _ hpc hs =>
    refine ⟨fun _ _ => hi.short (by simp [returned, hpc]) (by simp [nextState, hpc, hs, State.gathering]), ?_,
      by simp, by simp [returned]⟩
    simp [nextState]
  | startLoad _ hpc hs =>
    exact ⟨by simp [nextState, hs, State.gathering], by simp [nextState, hs], by simp, by simp [returned]⟩
  | wait _ hpc => exact hi.same (by simp [returned, hpc]) (by simp [nextState, hpc]) rfl rfl rfl (by simp)
  | finish _ _ hs =>
    refine Advancing.collectNext ?_ _
    exact hs
  | store _ hpc =>
    refine ⟨?_, ?_, by simp, by simp [returned]⟩
    · intro _ h
      apply hi.short (by simp [returned, hpc])
      simpa [nextState, hpc] using h
    · intro h
      simp only [nextState] at h
      simp [h, State.rank]
  | wrote hpc => exact hi.same (by simp [returned, hpc]) (by simp [nextState, hpc]) rfl rfl rfl (by simp)
  | writeFailed | writeIgnored | sendFailed | readFailed | vanish => cases he
  | @sentResults results remote hpc =>
    simp only [Phase, hpc] at hp
    cases remote with
    | none => exact absurd hpc (hi.unfailed.2 results)
    | some r => exact ⟨by simp [returned], by simp [nextState, hp, State.rank], by simp, fun _ => hp⟩
  | accept hpc => exact hi.accept hp hn hpc (hg (by simp [returned, hpc])) _ _ _
  | terminated hpc => exact hi.same (by simp [returned, hpc]) (by simp [nextState, hpc]) rfl rfl rfl (by simp)
  | unknown hpc hq =>
    have hgathers : ¬ Gathers t := fun hg => hg.unended.quiet _ (hq ▸ List.mem_cons_self)
    have hs := hi.load hp (.inl hpc) (hg (by simp [returned, hpc])) hgathers
    exact .afterTermination hs rfl
  | @joined id ref r hpc =>
    have hgathers : ¬ Gathers t := fun hg => hg.unjoined id ref hpc
    have hs := hi.load hp (.inr ⟨_, _, hpc⟩) (hg (by simp [returned, hpc])) hgathers
    exact .afterTermination hs (by simp)
  | joinFailed hpc hres =>
    obtain ⟨r, hr, hne⟩ := hjoin _ _ hpc
    exact absurd (Option.some.inj (hr.symm.trans hres)) hne
  | collected hpc =>
    simp only [Phase, hpc] at hp
    exact .collectNext (by simpa using hp) _
  | timedOut hpc =>
    simp only [Phase, hpc] at hp
    exact .collectNext hp _
  | readResults hpc => exact hi.same (by simp [returned, hpc]) (by simp [nextState, hpc]) rfl rfl rfl (by simp)
  | readOther hpc hne =>
    obtain ⟨r, hr⟩ := hread _ _ hpc rfl
    exact absurd hr (hne r)
  | worker hw =>
    obtain ⟨_, _, _, _, hws, ht, -⟩ := TestController.workerStep_spec hw
    exact hi.same rfl (by simp [nextState, ht]) (by simp [hws]) (by simp [ht]) (by simp [ht]) hi.unfailed
  | guard | unguard | offer => exact hi.same rfl rfl rfl rfl rfl hi.unfailed

end ServerTest

/-! ## The client's end -/

/-- The controller's reads and writes succeed. -/
def ClientEvent.unfailing : ClientEvent → Bool
  | .write ok => ok
  | .read (.error _) => false
  | .connect stream => stream.isSome
  | _ => true

namespace ClientTest
variable {t u : ClientTest} {e : ClientEvent} {cookie : String} {params : TestParameters}

theorem joinable (h : Reach step (new cookie params) t) (hn : t.Numbered) {id : Nat} {ref : StreamWorkerRef}
    (hpc : t.pc = .joining id ref) : ∃ r, t.taskResult ref = some r ∧ r ≠ .panicked := by
  obtain ⟨es, h⟩ := h
  exact ((collects_run h hn.nodup).joining id ref hpc).2

/-- The last phase of the test, from the drain on. -/
def exchanging (t : ClientTest) : Bool :=
  match t.pc with
  | .collecting _ | .sendingResults _ | .readingResults _ | .returned _ => true
  | _ => false

theorem Stage.told (h : Stage t) (he : t.exchanging = true) (hf : t.pc ≠ .returned none) :
    .setState .exchangeResults ∈ t.heard := by
  cases hpc : t.pc with
  | collecting | sendingResults | readingResults =>
    simp only [Stage, hpc] at h
    obtain ⟨⟨got, -, hheard⟩, -⟩ := h
    simp [hheard]
  | returned printed =>
    cases printed with
    | none => exact absurd hpc hf
    | some printed =>
      simp only [Stage, hpc] at h
      obtain ⟨⟨got, -, hheard⟩, -⟩ := h
      simp [hheard]
  | _ => simp [exchanging, hpc] at he

/-- The test does not fail, and waits in `CreateStreams` only with all streams. -/
structure Advancing (t : ClientTest) : Prop where
  quiet : ∀ n, .createStream n ∉ t.queue
  staffed : ∀ cookie, t.pc = .selecting → t.state = .createStreams cookie → t.totalNeededStreams ≤ t.workers.length
  unfailed : t.pc ≠ .returned none
  ended : t.exchanging = true → t.state = .exchangeResults

theorem Advancing.new : Advancing (new cookie params) := by
  refine ⟨?_, ?_, ?_, ?_⟩ <;> simp [ClientTest.new, TestController.new, exchanging]

/-- Streams are created until there are enough. -/
theorem Advancing.createStreams (hq : ∀ n, .createStream n ∉ t.queue) (hs : len t.streams = t.workers.length) :
    Advancing t.createStreams := by
  by_cases hmiss : len t.streams < t.totalNeededStreams
  · have hpc : t.createStreams.pc = .connecting := if_pos hmiss
    exact ⟨hq, by simp [hpc], by simp [hpc], by simp [exchanging, hpc]⟩
  · have hpc : t.createStreams.pc = .selecting := if_neg hmiss
    refine ⟨hq, fun _ _ _ => ?_, by simp [hpc], by simp [exchanging, hpc]⟩
    simp only [createStreams_toTestController]
    omega

theorem Advancing.collectNext (hq : ∀ n, .createStream n ∉ t.queue) (hs : t.state = .exchangeResults)
    (pending : Map StreamWorkerRef) : Advancing (t.collectNext pending) := by
  refine ⟨hq, ?_, ?_, fun _ => hs⟩
  · intro cookie _ h
    cases hs.symm.trans h
  · by_cases hc : len pending = 0 <;> simp [ClientTest.collectNext, hc]

theorem advancing_step (h : Step t e u) (he : e.unfailing = true) (hg : Gathering cookie t)
    (hread : ∀ results m, t.pc = .readingResults results → e = .read (.ok m) → ∃ r, m = .sendResults r)
    (hjoin : ∀ id ref, t.pc = .joining id ref → ∃ r, t.taskResult ref = some r ∧ r ≠ .panicked)
    (hi : Advancing t) : Advancing u := by
  obtain ⟨hq, hstaffed, hf, hended⟩ := id hi
  cases h with
  | start | store | told | surprised => exact ⟨hq, by simp, by simp, by simp [exchanging]⟩
  | create hpc hs =>
    have hnext : t.nextState.gathering = true := by simp [nextState, hpc, hs, State.gathering]
    obtain ⟨-, -, hue⟩ := hg.early (by simp [returned, hpc]) hnext
    exact .createStreams hq hue.size
  | startLoad _ hs => exact ⟨hq, by simp [hs], by simp, by simp [exchanging]⟩
  | select _ hs =>
    refine ⟨hq, fun cookie _ h => ?_, by simp, by simp [exchanging]⟩
    rcases hs with hs | ⟨hs, -⟩ | hs <;> cases hs.symm.trans h
  | finish _ hs =>
    refine Advancing.collectNext ?_ ?_ _
    · exact hq
    · exact hs
  | intruded _ hqueue => exact absurd (hqueue ▸ List.mem_cons_self) (hq _)
  | terminated _ hqueue | unknown _ hqueue =>
    refine ⟨fun n hn => hq n (hqueue ▸ List.mem_cons_of_mem _ hn), ?_, ?_, ?_⟩ <;> simp [exchanging]
  | failed | denied | sendFailed => cases he
  | readResults hpc => exact ⟨hq, by simp, by simp, fun _ => hended (by simp [exchanging, hpc])⟩
  | @readOther _ r hpc hne =>
    cases r with
    | error => cases he
    | ok m =>
      obtain ⟨r, rfl⟩ := hread _ m hpc rfl
      exact absurd rfl (hne r)
  | joined => exact ⟨by simpa using hq, by simp, by simp, by simp [exchanging]⟩
  | joinFailed hpc hres =>
    obtain ⟨r, hr, hne⟩ := hjoin _ _ hpc
    exact absurd (Option.some.inj (hr.symm.trans hres)) hne
  | collected hpc => exact .collectNext (by simpa using hq) (by simpa using hended (by simp [exchanging, hpc])) _
  | timedOut hpc => exact .collectNext hq (hended (by simp [exchanging, hpc])) _
  | @connected stream hpc =>
    obtain ⟨-, -, hue⟩ := hg.early (returned_of_connecting hpc) (hg.connecting hpc).1
    refine .createStreams ?_ ?_
    · exact hq
    · exact (hue.register hg.ranked.toNumbered stream).size
  | sentResults hpc => exact ⟨hq, by simp, by simp, fun _ => hended (by simp [exchanging, hpc])⟩
  | worker hw =>
    obtain ⟨_, _, _, _, hws, ht, hqueue⟩ := TestController.workerStep_spec hw
    refine ⟨fun n hn => hq n ?_, ?_, hf, ?_⟩
    · rcases hqueue with hqueue | hqueue
      · exact hqueue ▸ hn
      · simpa [hqueue] using hn
    · intro cookie hpc hs
      simp only [ht] at hs
      rw [PerfTest.totalNeededStreams_config (congrArg PerfTest.config ht)]
      simpa [hws] using hstaffed cookie hpc hs
    · intro h
      simp only [ht]
      exact hended h

end ClientTest

/-! ## The accept loop -/

namespace Server
variable {decode : List UInt8 → Option ClientEnvelope} {s u : Server} {e : NetEvent}

/-- The test that is about to be handed a connection. -/
def hands (s : Server) : Option ServerTest :=
  match s.pc with
  | .handing _ k => s.tests[k]?
  | _ => none

/-- A test is made for a client that has sent its cookie. -/
theorem named_reach (h : Reach (step decode) init s) : ∀ c cookie socket,
    s.pc = .welcome c cookie socket ∨ s.pc = .params c cookie socket →
      ∃ hello, Session.names decode hello cookie = true := by
  obtain ⟨es, h⟩ := h
  induction h with
  | nil => simp [init]
  | snoc _ _ hs ih =>
    intro c cookie socket hpc
    cases step_cases hs with
    | @named _ _ hello _ _ _ hread =>
      simp only [AcceptPc.welcome.injEq, reduceCtorEq, or_false] at hpc
      obtain ⟨-, rfl, -⟩ := hpc
      exact ⟨hello, by simp [Session.names, hread]⟩
    | invited hpc' =>
      simp only [AcceptPc.params.injEq, reduceCtorEq, false_or] at hpc
      obtain ⟨-, rfl, -⟩ := hpc
      exact ih _ _ _ (.inl hpc')
    | handed _ hv =>
      obtain ⟨_, _, -, -, -, -, rfl⟩ := handOver_eq hv
      simp at hpc
    | test => exact ih c cookie socket hpc
    | _ => simp [fail] at hpc

/-- A connection at hand is at hand until it is answered, or the loop ends. -/
theorem conn_leaves (h : Step decode s e u) (hn : s.pc.negotiating = false) {c : Nat} (hc : s.pc.conn = some c) :
    u.pc.conn = some c ∨ u.pc = .returned ∨ (∃ held, s.pc = .denying c held) ∨ ∃ k, s.pc = .handing c k := by
  cases h with
  | accept hpc | acceptIdle hpc => simp [hpc, AcceptPc.conn] at hc
  | guarded hpc | busy hpc | matched hpc | foreign hpc | welcomed hpc =>
    refine .inl ?_
    simpa [hpc, AcceptPc.conn] using hc
  | malformed | unwelcomed | refused => exact .inr (.inl rfl)
  | denied hpc | deniedHeld hpc =>
    simp only [hpc, AcceptPc.conn, Option.some.injEq] at hc
    exact .inr (.inr (.inl ⟨_, hc ▸ hpc⟩))
  | handed hpc =>
    simp only [hpc, AcceptPc.conn, Option.some.injEq] at hc
    exact .inr (.inr (.inr ⟨_, hc ▸ hpc⟩))
  | test => exact .inl hc
  | named hpc | unnamed hpc | invited hpc | uninvited hpc | created hpc | uncreated hpc | timedOut hpc =>
    simp [hpc, AcceptPc.negotiating] at hn

theorem negotiating_step (h : Step decode s e u) (hn : s.pc.negotiating = false) :
    u.pc.negotiating = false ∨ ∃ socket, e = .accept socket ∧ s.upgrade = none := by
  cases h with
  | acceptIdle _ hup => exact .inr ⟨_, rfl, hup⟩
  | test => exact .inl hn
  | handed _ hv =>
    obtain ⟨_, _, -, -, -, -, rfl⟩ := handOver_eq hv
    exact .inl rfl
  | named hpc | invited hpc => simp [hpc, AcceptPc.negotiating] at hn
  | _ => exact .inl rfl

/-- How `run_server` comes to an end. -/
theorem leaves_of_step (h : Step decode s e u) (hs : s.pc ≠ .returned) (hu : u.pc = .returned) :
    (∃ c k cookie socket, s.pc = .helloData c k cookie ∧ s.conns[c]? = some socket ∧
      ∀ other rest, readCookie decode socket ≠ .ok other rest) ∨
    (∃ c k, s.pc = .welcomeData c k ∧ e = .write false) ∨
    ∃ c k, s.pc = .handing c k ∧ e = .send ∧ s.handOver c = none := by
  cases h with
  | malformed hpc hconn _ hread => exact .inl ⟨_, _, _, _, hpc, hconn, hread⟩
  | unwelcomed hpc => exact .inr (.inl ⟨_, _, hpc, rfl⟩)
  | refused hpc hv => exact .inr (.inr ⟨_, _, hpc, rfl, hv⟩)
  | test => exact absurd hu hs
  | handed _ hv =>
    obtain ⟨_, _, -, -, -, -, rfl⟩ := handOver_eq hv
    cases hu
  | _ => cases hu

/-- Only an accepted connection comes to hand. -/
theorem conn_origin (h : Step decode s e u) {c : Nat} (hc : u.pc.conn = some c) :
    s.pc.conn = some c ∨ ∃ socket, e = .accept socket := by
  cases h with
  | accept | acceptIdle => exact .inr ⟨_, rfl⟩
  | guarded hpc | busy hpc | matched hpc | foreign hpc | welcomed hpc | named hpc | invited hpc =>
    refine .inl ?_
    simpa [hpc, AcceptPc.conn] using hc
  | test => exact .inl hc
  | handed _ hv =>
    obtain ⟨_, _, -, -, -, -, rfl⟩ := handOver_eq hv
    cases hc
  | _ => cases hc

/-- What was written stays written. -/
theorem answers_kept (h : Step decode s e u) {a : Nat × ServerEnvelope} (hm : a ∈ s.answers) : a ∈ u.answers := by
  cases h with
  | welcomed | invited => exact List.mem_append_left _ hm
  | @denied _ ok | @deniedHeld _ _ ok =>
    cases ok with
    | false => exact hm
    | true => exact List.mem_append_left _ hm
  | handed _ hv =>
    obtain ⟨_, _, -, -, -, -, rfl⟩ := handOver_eq hv
    exact hm
  | _ => exact hm

theorem handing_origin (h : Step decode s e u) {c k : Nat} (hpc : u.pc = .handing c k) :
    s.pc = .handing c k ∨ (c, .serverMessage .welcome) ∈ u.answers := by
  cases h with
  | welcomed =>
    obtain ⟨rfl, -⟩ := AcceptPc.handing.inj hpc
    exact .inr (by simp)
  | test => exact .inl hpc
  | handed _ hv =>
    obtain ⟨_, _, -, -, -, -, rfl⟩ := handOver_eq hv
    cases hpc
  | _ => cases hpc

end Server

end Netperf
