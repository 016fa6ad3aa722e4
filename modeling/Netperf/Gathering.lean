import Netperf.Registration
import Netperf.Pair
/-!
# Gathering streams

Until the load starts each end of a test registers its streams one after
another. As long as none ends, the stream registered after `i` others has the
id `i` and the direction that place has.
-/

namespace Netperf

open Maps Runs Lists

/-! ## Places -/

/-- What a worker keeps from its registration on. -/
def Worker.tag (w : Worker) : Nat × Nat × Bool := (w.id, w.stream, w.isSending)

namespace TestController
variable {c d : TestController}

theorem broadcast_tags (m : WorkerMessage) :
    (c.broadcastToStreams m).workers.map Worker.tag = c.workers.map Worker.tag := by
  have h := congrArg (List.map (fun x : Nat × Nat × Bool × WorkerPc => (x.1, x.2.1, x.2.2.1))) (c.broadcast_stage m)
  rw [List.map_map, List.map_map] at h
  exact h

theorem workerStep_tags {alive o : Bool} {i : Nat} {e : WorkerEvent} (h : c.workerStep alive o i e = some d) :
    d.workers.map Worker.tag = c.workers.map Worker.tag := by
  obtain ⟨w, w', hw, hs, hws, -, -⟩ := workerStep_spec h
  obtain ⟨hid, hstream, hsending, -⟩ := Worker.step_spec hs
  rw [hws, set_map hw (by simp [Worker.tag, hid, hstream, hsending])]

/-- Streams have the id and the direction of their place. -/
structure Ranked (c : TestController) : Prop extends Numbered c where
  directed : ∀ (i : Nat) (w : Worker), c.workers[i]? = some w → w.isSending = c.isSendingAt i

theorem Ranked.new (test : PerfTest) (h : test.streams = ∅) : Ranked (TestController.new test) :=
  ⟨.new test h, by simp [TestController.new]⟩

theorem Ranked.sub (h : Ranked c) (hw : d.workers.map Worker.tag = c.workers.map Worker.tag)
    (hs : ∀ id ref, d.streams.lookup id = some ref → c.streams.lookup id = some ref) (hc : d.config = c.config) :
    Ranked d := by
  refine ⟨h.toNumbered.sub ?_ hs, ?_⟩
  · have hids := congrArg (List.map Prod.fst) hw
    rwa [List.map_map, List.map_map] at hids
  · intro i w hi
    obtain ⟨v, hv, hvw⟩ := Lists.getElem?_of_map_eq hw hi
    have hsending : v.isSending = w.isSending := congrArg (fun x => x.2.2) hvw
    rw [← hsending, h.directed i v hv, PerfTest.isSendingAt_config hc]

theorem Ranked.workerStep {alive o : Bool} {i : Nat} {e : WorkerEvent} (h : Ranked c)
    (hs : c.workerStep alive o i e = some d) : Ranked d := by
  obtain ⟨-, -, -, -, -, ht, -⟩ := workerStep_spec hs
  exact h.sub (workerStep_tags hs) (by simp [ht]) (by rw [ht])

theorem Ranked.register (h : Ranked c) (hlen : len c.streams = c.workers.length) (s : Nat) :
    Ranked (c.createAndRegisterStreamWorker s) := by
  refine ⟨(h.toNumbered.register hlen s).1, fun i w hi => ?_⟩
  have hconfig : (c.createAndRegisterStreamWorker s).config = c.config := rfl
  rw [PerfTest.isSendingAt_config hconfig]
  rcases getElem?_concat_iff.1 hi with hi | ⟨rfl, rfl⟩
  · exact h.directed i w hi
  · simp [PerfTest.nextIsSending, hlen]

end TestController

/-! ## The server -/

/-- The states in which streams are still missing. -/
def State.gathering : State → Bool
  | .testStart | .createStreams _ => true
  | _ => false

section
variable {cookie : String} {s s' : State}

theorem ServerTest.Transit.gathering (h : Transit cookie s s') (hs : s'.gathering = true) : s = .testStart := by
  cases h <;> first | rfl | cases hs

end

namespace ServerTest
variable {t u : ServerTest} {e : ServerEvent}

/-- No worker ends before its controller has told its streams to start, unless
the controller is gone. -/
def Loads (t : ServerTest) : ServerEvent → Prop
  | .worker i e => t.ends (t.channelOpen i) i e = true → t.oldState = .running ∨ t.returned = true
  | _ => True

/-- The stored state, or the one to be announced or stored next. -/
def nextState (t : ServerTest) : State :=
  match t.pc with
  | .writingState s _ | .storingState s => s
  | _ => t.state

/-- Streams are missing, and none has ended. -/
structure Gathers (t : ServerTest) : Prop where
  state : t.nextState.gathering = true
  unjoined : ∀ id ref, t.pc ≠ .joining id ref
  unended : t.Unended

theorem workers_step (h : Step t e u) : t.workers.length ≤ u.workers.length := by
  have hb := fun m => by simpa using congrArg List.length (t.broadcast_stage m)
  cases h with
  | worker hw =>
    obtain ⟨_, _, _, _, hws, -⟩ := TestController.workerStep_spec hw
    simp [hws]
  | startLoad => simp [hb]
  | finish => simp [hb]
  | accept => simp [TestController.createAndRegisterStreamWorker]
  | _ => simp

theorem ranked_step (h : Step t e u) (hi : t.Ranked)
    (ha : ∀ s rest, t.pc = .waiting → t.queue = .createStream s :: rest → len t.streams = t.workers.length) :
    u.Ranked := by
  cases h with
  | startLoad => exact hi.sub (TestController.broadcast_tags _) (fun _ _ h => h) rfl
  | finish => exact hi.sub (TestController.broadcast_tags _) (by simp) rfl
  | @accept s rest hpc hq =>
    have hpop : TestController.Ranked { t.toTestController with queue := rest } := hi.sub rfl (fun _ _ h => h) rfl
    exact hpop.register (ha s rest hpc hq) s
  | terminated => exact hi.sub rfl (fun _ _ h => (lookup_erase_iff.1 h).2) rfl
  | worker hw => exact hi.workerStep hw
  | _ => exact hi.sub (by simp) (by simp) (by simp [PerfTest.config])

/-- A controller whose load has started is not gathering streams. -/
theorem Phase.not_gathering (hp : Phase t) (hr : t.returned = false) (ho : t.oldState = .running) :
    t.nextState.gathering = false := by
  cases hpc : t.pc with
  | start => simp [Phase, hpc, ho] at hp
  | loopTop =>
    simp only [Phase, hpc, ho] at hp
    simp only [nextState, hpc]
    rcases hp with ⟨hs, -⟩ | hp
    · simp [← hs, State.gathering]
    · by_contra hg
      cases hp.gathering (by simpa using hg)
  | waiting | joining =>
    simp only [Phase, hpc, ho] at hp
    simp [nextState, hpc, ← hp.1, State.gathering]
  | writingState s k =>
    simp only [Phase, hpc] at hp
    simp only [nextState, hpc]
    by_contra hg
    cases (hp.2.1.gathering (by simpa using hg)).symm.trans (hp.1.symm.trans ho)
  | storingState s =>
    simp only [Phase, hpc] at hp
    simp only [nextState, hpc]
    by_contra hg
    cases (hp.2.gathering (by simpa using hg)).symm.trans (hp.1.symm.trans ho)
  | returned => simp [returned, hpc] at hr
  | _ =>
    simp only [Phase, hpc] at hp
    simp [nextState, hpc, hp, State.gathering]

/-- A registered stream was the last one missing, or streams are gathered on. -/
theorem Gathers.accept (hg : Gathers t) (hn : t.Numbered) (hpc : t.pc = .waiting) {s : Nat}
    {rest handled : List ControllerMessage} (hq : t.queue = .createStream s :: rest) :
    ({ t with queue := rest, handled := handled }.acceptStream s).totalNeededStreams ≤
        ({ t with queue := rest, handled := handled }.acceptStream s).workers.length ∨
      Gathers ({ t with queue := rest, handled := handled }.acceptStream s) := by
  have hn' : TestController.Numbered { t.toTestController with queue := rest } := hn.sub rfl (fun _ _ h => h)
  have hue : TestController.Unended { t.toTestController with queue := rest } := hg.unended.same rfl rfl (by simp [hq])
  have hreg := hue.register hn' s
  by_cases hfull : len (t.createAndRegisterStreamWorker s).streams = t.totalNeededStreams
  · exact .inl (Nat.le_of_eq (hfull.symm.trans hreg.size))
  · have hnext : ({ t with queue := rest, handled := handled }.acceptStream s).pc = .loopTop := if_neg hfull
    have hstate := hg.state
    simp only [nextState, hpc] at hstate
    refine .inr ⟨?_, by simp [hnext], hreg⟩
    simp only [nextState, hnext]
    exact hstate

/-- Streams are gathered until there are as many workers as the test needs. -/
theorem gathers_step (h : Step t e u) (hp : Phase t) (hl : Loads t e) (hn : t.Numbered) (hu : u.returned = false)
    (hi : t.totalNeededStreams ≤ t.workers.length ∨ Gathers t) :
    u.totalNeededStreams ≤ u.workers.length ∨ Gathers u := by
  rcases hi with hfull | hg
  · rw [PerfTest.totalNeededStreams_config (config_of_step h)]
    exact .inl (hfull.trans (workers_step h))
  obtain ⟨hs, hj, hue⟩ := id hg
  have ht := returned_of_step h hu
  cases h with
  | accept hpc hq => exact hg.accept hn hpc hq
  | startLoad _ hpc hr | finish _ hpc hr => simp [nextState, hpc, hr, State.gathering] at hs
  | terminated _ hq | unknown _ hq => exact (hue.quiet _ (hq ▸ List.mem_cons_self)).elim
  | joined hpc | joinFailed hpc => exact absurd hpc (hj _ _)
  | collected hpc | timedOut hpc | readResults hpc | readOther hpc | readFailed hpc =>
    simp only [Phase, hpc] at hp
    simp [nextState, hpc, hp, State.gathering] at hs
  | worker hw =>
    rename_i i we c
    refine .inr ⟨?_, hj, hue.workerStep hw ?_⟩
    · simpa [nextState, workerStep_test hw] using hs
    · by_contra hends
      rcases hl (by simpa using hends) with ho | hr
      · rw [hp.not_gathering ht ho] at hs
        cases hs
      · rw [hr] at ht
        cases ht
  | start _ hpc | store _ hpc | wait _ hpc | wrote hpc =>
    refine .inr ⟨?_, by simp, hue.same rfl rfl (fun _ h => h)⟩
    simpa only [nextState, hpc] using hs
  | announce => exact .inr ⟨rfl, by simp, hue.same rfl rfl (fun _ h => h)⟩
  | writeIgnored hpc =>
    simp only [Phase, hpc] at hp
    rw [nextState, hpc, (hp.2.2.1 trivial)] at hs
    cases hs
  | guard | unguard | vanish => exact .inr ⟨hs, hj, hue.same rfl rfl (fun _ h => h)⟩
  | offer => exact .inr ⟨hs, hj, hue.same rfl rfl (by simp)⟩
  | _ => simp [returned] at hu

end ServerTest

/-! ## The client -/

section
variable {cookie : String} {s s' : State} {ms pre : List ServerMessage}

/-- The messages tell which state was announced last. -/
theorem Script.unique (h : Script cookie s ms) (h' : Script cookie s' ms) : s = s' := by
  cases h with
  | start =>
    generalize hms : ([] : List ServerMessage) = ms at h'
    cases h' with
    | start => rfl
    | next => simp at hms
  | @next s₀ s₁ ms₀ h ht =>
    generalize hms : ms₀ ++ [ServerMessage.setState s] = ms at h'
    cases h' with
    | start => simp at hms
    | next => simpa using (List.append_inj' hms rfl).2

/-- A reader of the announcements sees each of them follow the one before. -/
theorem Script.next_of_prefix (h : Script cookie s ms) (hp : pre ++ [.setState s'] <+: ms) :
    ∃ s₁, Script cookie s₁ pre ∧ ServerTest.Transit cookie s₁ s' := by
  induction h with
  | start => simp at hp
  | next h ht ih =>
    rcases List.prefix_concat_iff.1 hp with he | hp
    · obtain ⟨rfl, hs⟩ := List.append_inj' he rfl
      obtain rfl : s' = _ := by simpa using hs
      exact ⟨_, h, ht⟩
    · exact ih hp

end

namespace ClientTest
variable {cookie : String} {t u : ClientTest} {e : ClientEvent}

/-- No worker ends before its controller has told its streams to start, unless
the controller is gone. -/
def Loads (t : ClientTest) : ClientEvent → Prop
  | .worker i e => t.ends (t.channelOpen i) i e = true → t.oldState = .running ∨ t.returned = true
  | _ => True

/-- The stored state, or the one to be stored next. -/
def nextState (t : ClientTest) : State :=
  match t.pc with
  | .storingState s => s
  | _ => t.state

/-- What the loop reads is the announcement of a state that may come next. -/
def Hears (cookie : String) (t : ClientTest) (e : ClientEvent) : Prop :=
  ∀ m, e = .read (.ok m) → t.pc = .selecting → ∃ s, m = .setState s ∧ ServerTest.Transit cookie t.nextState s

/-- The client has heard the announcements up to its state. While streams are
missing none has ended, and it connects no more of them than it needs. -/
structure Gathering (cookie : String) (t : ClientTest) : Prop where
  ranked : t.Ranked
  bounded : t.workers.length ≤ t.totalNeededStreams
  script : t.returned = false → Script cookie t.nextState t.heard
  early : t.returned = false → t.nextState.gathering = true →
    (∀ id ref, t.pc ≠ .joining id ref) ∧ t.oldState ≠ .running ∧ t.Unended
  connecting : t.pc = .connecting → t.nextState.gathering = true ∧ t.workers.length < t.totalNeededStreams

theorem returned_of_connecting (h : t.pc = .connecting) : t.returned = false := by simp [returned, h]

theorem createStreams_nextState : t.createStreams.nextState = t.state := by
  by_cases h : len t.streams < t.totalNeededStreams <;> simp [createStreams, nextState, h]

theorem createStreams_connecting (h : t.createStreams.pc = .connecting) : len t.streams < t.totalNeededStreams := by
  by_contra hn
  simp [createStreams, hn] at h

theorem createStreams_unjoined (id : Nat) (ref : StreamWorkerRef) : t.createStreams.pc ≠ .joining id ref := by
  by_cases h : len t.streams < t.totalNeededStreams <;> simp [createStreams, h]

theorem collectNext_nextState (pending : Map StreamWorkerRef) : (t.collectNext pending).nextState = t.state := by
  by_cases h : len pending = 0 <;> simp [collectNext, nextState, h]

/-- The next state is another one only when the client is told. -/
theorem nextState_step (h : Step t e u) (hh : Hears cookie t e) (hu : u.returned = false) :
    (u.nextState = t.nextState ∧ u.heard = t.heard) ∨
      (ServerTest.Transit cookie t.nextState u.nextState ∧ u.heard = t.heard ++ [.setState u.nextState] ∧
        u.toTestController = t.toTestController ∧ u.oldState = t.oldState ∧ ∀ id ref, u.pc ≠ .joining id ref) := by
  have hheard : (∀ m, e ≠ .read (.ok m)) → u.heard = t.heard := by
    intro hne
    rcases heard_of_step h with hr | ⟨m, he, -⟩
    · exact hr
    · exact absurd he (hne m)
  cases h with
  | told hpc =>
    obtain ⟨s, hm, ht⟩ := hh _ rfl hpc
    obtain rfl := ServerMessage.setState.inj hm
    exact .inr ⟨ht, heard_read _ _ _, rfl, rfl, by simp⟩
  | surprised hpc hne =>
    obtain ⟨s, hm, -⟩ := hh _ rfl hpc
    exact absurd hm (hne s)
  | create hpc | connected hpc =>
    exact .inl ⟨createStreams_nextState.trans (by simp [nextState, hpc]), hheard (by simp)⟩
  | finish hpc | collected hpc | timedOut hpc =>
    exact .inl ⟨(collectNext_nextState _).trans (by simp [nextState, hpc]), hheard (by simp)⟩
  | worker hw => exact .inl ⟨by simp [nextState, workerStep_test hw], hheard (by simp)⟩
  | start hpc | startLoad hpc | select hpc | store hpc | terminated hpc | unknown hpc | sentResults hpc | joined hpc =>
    exact .inl ⟨by simp [nextState, hpc], hheard (by simp)⟩
  | _ => simp [returned] at hu

theorem ranked_step (h : Step t e u) (hi : Gathering cookie t) : u.Ranked := by
  have hr := hi.ranked
  cases h with
  | startLoad => exact hr.sub (TestController.broadcast_tags _) (fun _ _ h => h) rfl
  | finish => exact hr.sub (TestController.broadcast_tags _) (by simp) rfl
  | connected hpc =>
    obtain ⟨-, -, hue⟩ := hi.early (returned_of_connecting hpc) (hi.connecting hpc).1
    exact hr.register hue.size _
  | terminated => exact hr.sub rfl (fun _ _ h => (lookup_erase_iff.1 h).2) rfl
  | worker hw => exact hr.workerStep hw
  | _ => exact hr.sub (by simp) (by simp) (by simp [PerfTest.config])

theorem bounded_step (h : Step t e u) (hi : Gathering cookie t) : u.workers.length ≤ u.totalNeededStreams := by
  rw [PerfTest.totalNeededStreams_config (config_of_step h)]
  have hb := fun m => by simpa using congrArg List.length (t.broadcast_stage m)
  cases h with
  | startLoad | finish => simpa [hb] using hi.bounded
  | connected hpc =>
    have hlt := (hi.connecting hpc).2
    simp only [createStreams_toTestController, TestController.createAndRegisterStreamWorker, List.length_append,
      List.length_singleton]
    omega
  | worker hw =>
    obtain ⟨_, _, _, _, hws, -⟩ := TestController.workerStep_spec hw
    simpa [hws] using hi.bounded
  | _ => simpa using hi.bounded

theorem oldState_step (h : Step t e u) : u.oldState = t.oldState ∨ u.oldState = u.nextState := by
  cases h with
  | start | startLoad | select => exact .inr rfl
  | create =>
    by_cases hmiss : len t.streams < t.totalNeededStreams
    · exact .inl (if_pos hmiss)
    · exact .inr ((if_neg hmiss).trans createStreams_nextState.symm)
  | @connected stream =>
    by_cases hmiss : len (t.createAndRegisterStreamWorker stream).streams < t.totalNeededStreams
    · exact .inl (if_pos hmiss)
    · exact .inr ((if_neg hmiss).trans createStreams_nextState.symm)
  | _ => exact .inl (by simp)

/-- While streams are missing a step ends none. -/
theorem unended_step (h : Step t e u) (hl : Loads t e) (hi : Gathering cookie t) (hu : u.returned = false)
    (hg : t.nextState.gathering = true) :
    (∀ id ref, u.pc ≠ .joining id ref) ∧ u.Unended := by
  obtain ⟨hj, ho, hue⟩ := hi.early (returned_of_step h hu) hg
  cases h with
  | startLoad hpc hs | finish hpc hs => simp [nextState, hpc, hs, State.gathering] at hg
  | terminated _ hq | unknown _ hq => exact (hue.quiet _ (hq ▸ List.mem_cons_self)).elim
  | joined hpc => exact absurd hpc (hj _ _)
  | create => exact ⟨createStreams_unjoined, hue⟩
  | connected => exact ⟨createStreams_unjoined, hue.register hi.ranked.toNumbered _⟩
  | collected | timedOut =>
    refine ⟨?_, hue.same (by simp) (by simp) (by simp)⟩
    simp only [collectNext]
    split <;> simp
  | worker hw =>
    refine ⟨hj, hue.workerStep hw ?_⟩
    by_contra hends
    rcases hl (by simpa using hends) with hr | hr
    · exact ho hr
    · rw [returned_of_step (.worker hw) hu] at hr
      cases hr
  | start | select | store | told | surprised | sentResults => exact ⟨by simp, hue.same rfl rfl (fun _ h => h)⟩
  | _ => simp [returned] at hu

/-- The client connects only while streams are missing. -/
theorem connecting_step (h : Step t e u) (hi : Gathering cookie t) (hu : u.pc = .connecting) :
    u.nextState.gathering = true ∧ u.workers.length < u.totalNeededStreams := by
  cases h with
  | @create c hpc hs =>
    have hg : t.nextState.gathering = true := by simp [nextState, hpc, hs, State.gathering]
    have hr : t.returned = false := by simp [returned, hpc]
    obtain ⟨-, -, hue⟩ := hi.early hr hg
    have hlt := createStreams_connecting hu
    rw [hue.size] at hlt
    exact ⟨by simp [createStreams_nextState, hs, State.gathering], hlt⟩
  | @connected stream hpc =>
    obtain ⟨hg, -⟩ := hi.connecting hpc
    obtain ⟨-, -, hue⟩ := hi.early (returned_of_connecting hpc) hg
    have hlt := createStreams_connecting hu
    rw [(hue.register hi.ranked.toNumbered stream).size] at hlt
    refine ⟨?_, hlt⟩
    simp only [nextState, hpc] at hg
    exact createStreams_nextState ▸ hg
  | worker hw =>
    obtain ⟨hg, hlt⟩ := hi.connecting hu
    obtain ⟨_, _, _, _, hws, htest, -⟩ := TestController.workerStep_spec hw
    exact ⟨by simpa only [nextState, htest] using hg, by simpa [hws, htest] using hlt⟩
  | finish | collected | timedOut =>
    simp only [collectNext] at hu
    split at hu <;> cases hu
  | _ => cases hu

theorem gathering_step (h : Step t e u) (hl : Loads t e) (hh : Hears cookie t e) (hi : Gathering cookie t) :
    Gathering cookie u := by
  refine ⟨ranked_step h hi, bounded_step h hi, ?_, ?_, connecting_step h hi⟩
  · intro hu
    have hs := hi.script (returned_of_step h hu)
    rcases nextState_step h hh hu with ⟨hn, hheard⟩ | ⟨ht, hheard, -⟩
    · rw [hn, hheard]
      exact hs
    · rw [hheard]
      exact hs.next ht
  · intro hu hg
    rcases nextState_step h hh hu with ⟨hn, -⟩ | ⟨ht, -, hc, ho, hj⟩
    · rw [hn] at hg
      obtain ⟨hj, hue⟩ := unended_step h hl hi hu hg
      refine ⟨hj, ?_, hue⟩
      rcases oldState_step h with ho | ho
      · rw [ho]
        exact (hi.early (returned_of_step h hu) hg).2.1
      · rintro hr
        rw [← hn, ← ho, hr] at hg
        cases hg
    · -- the first announcement
      have hstart : t.nextState.gathering = true := by rw [ht.gathering hg]; rfl
      obtain ⟨-, hold, hue⟩ := hi.early (returned_of_step h hu) hstart
      exact ⟨hj, ho ▸ hold, hc ▸ hue⟩

theorem gathering_new (cookie : String) (params : TestParameters) : Gathering cookie (new cookie params) :=
  ⟨.new _ rfl, by simp [new, TestController.new], fun _ => .start,
    fun _ _ => ⟨by simp [new], by simp [new], .new _ rfl⟩, by simp [new]⟩

end ClientTest

end Netperf
