import Netperf.ServerPhases
import Netperf.Notices
/-!
# What a test lets out

The order of the effects of a server's controller: the `SetState` frames it
writes, the states it stores, the messages it broadcasts to its streams, and
those it takes from its channel. `set_state` validates nothing; that the test
only moves forward follows from the shape of the loop.
-/

namespace Netperf

open Maps Runs

/-- The place of a state in the life of a test. -/
def State.rank : State → Nat
  | .testStart => 0
  | .createStreams _ => 1
  | .running => 2
  | .exchangeResults => 3
  | .displayResults => 4

inductive Observation where
  /-- A `SetState` frame is on the control socket. -/
  | announced (s : State)
  /-- `*locked_state = state` -/
  | stored (s : State)
  | broadcast (m : WorkerMessage)
  | processed (m : ControllerMessage)
deriving DecidableEq

namespace Observation

def stored? : Observation → Option State
  | .stored s => some s
  | _ => none

/-- The states stored, in order. -/
def stores (os : List Observation) : List State := os.filterMap stored?

def frame? : Observation → Option ServerMessage
  | .announced s => some (.setState s)
  | _ => none

def broadcast? : Observation → Option WorkerMessage
  | .broadcast m => some m
  | _ => none

def message? : Observation → Option ControllerMessage
  | .processed m => some m
  | _ => none

/-- What may come later than what. -/
def InOrder : Observation → Observation → Prop
  -- the stored state never goes back
  | .stored s, .stored s' => s.rank ≤ s'.rank
  -- StartLoad once, and never after Terminate
  | .broadcast _, .broadcast .startLoad => False
  | .stored .exchangeResults, .processed _ => False
  | _, _ => True

end Observation

namespace ServerTest

open Observation

/-- What an enabled event lets out. -/
def observe (t : ServerTest) : ServerEvent → List Observation
  | .lock =>
    match t.pc with
    | .storingState s => [.stored s]
    | .loopTop =>
      match t.state with
      | .running => if t.oldState ≠ .running then [.broadcast .startLoad] else []
      | .exchangeResults => [.broadcast .terminate]
      | _ => []
    | _ => []
  | .write ok =>
    match t.pc with
    | .writingState s _ => if ok then [.announced s] else []
    | _ => []
  | .recv => (t.queue.head?.map Observation.processed).toList
  | _ => []

variable {t u : ServerTest} {e : ServerEvent} {cookie : String} {os : List Observation}

theorem Transit.rank_le {s s' : State} (h : Transit cookie s s') : s.rank ≤ s'.rank := by
  cases h <;> simp [State.rank]

theorem Serving.rank_le {s : State} (h : Serving cookie s) : s.rank ≤ 2 := by
  rcases h with rfl | rfl <;> simp [State.rank]

theorem Phase.old_le (hp : Phase t) (hpc : t.pc = .loopTop) : t.oldState.rank ≤ t.state.rank := by
  simp only [Phase, hpc] at hp
  rcases hp with ⟨ho, -⟩ | ht
  · rw [ho]
  · exact ht.rank_le

/-- The load starts when the state before was `CreateStreams`. -/
theorem Phase.startLoad (hp : Phase t) (hpc : t.pc = .loopTop) (hs : t.state = .running) (ho : t.oldState ≠ .running) :
    t.oldState.rank = 1 := by
  simp only [Phase, hpc, hs] at hp
  rcases hp with ⟨he, -⟩ | ht
  · exact absurd he ho
  · generalize t.oldState = s at ht ho
    cases ht with
    | run => rfl
    | rerun => exact absurd rfl ho

/-- Neither the stored state nor the loop's copy of it goes back. -/
theorem rank_step (h : Step t e u) (hp : Phase t) :
    t.state.rank ≤ u.state.rank ∧ t.oldState.rank ≤ u.oldState.rank := by
  cases h with
  | start _ hpc =>
    simp only [Phase, hpc] at hp
    simp [hp.1, hp.2]
  | startLoad _ hpc | wait _ hpc => exact ⟨le_rfl, hp.old_le hpc⟩
  | store _ hpc =>
    simp only [Phase, hpc] at hp
    exact ⟨hp.2.rank_le, le_rfl⟩
  | worker hw => simp [workerStep_test hw]
  | _ => simp

def isState : ServerMessage → Bool
  | .setState _ => true
  | _ => false

/-- The log has the `SetState` frames that were sent and the messages that were
handled. -/
theorem observe_spec (h : Step t e u) :
    u.sent.filter isState = t.sent.filter isState ++ (t.observe e).filterMap frame? ∧
      u.handled = t.handled ++ (t.observe e).filterMap message? := by
  cases h with
  | start _ hpc | announce _ hpc hs | finish _ hpc hs | store _ hpc => simp [observe, *, frame?, message?]
  | startLoad _ hpc hs ho => simp [observe, hpc, hs, ho, frame?, message?]
  | wait _ hpc hs =>
    rcases hs with ⟨c, hs⟩ | ⟨hs, ho⟩ | hs
    · simp [observe, hpc, hs]
    · simp [observe, hpc, hs, ho]
    · simp [observe, hpc, hs]
  | wrote hpc | writeFailed hpc | writeIgnored hpc | sentResults hpc | sendFailed hpc =>
    simp [observe, hpc, frame?, message?, isState]
  | accept _ hq | terminated _ hq | unknown _ hq => simp [observe, hq, frame?, message?]
  | worker => simp [observe]
  | _ => simp [observe]

/-- A step of the controller leaves a listed worker with the broadcasts that the
log has of it, and every other one as it was. -/
theorem observe_sends (h : Step t e u) (he : ∀ j we, e ≠ .worker j we) {i : Nat} {w : Worker}
    (hw : t.workers[i]? = some w) : u.workers[i]? = some (if t.streams.lookup w.id = some ⟨i⟩ then
      ((t.observe e).filterMap broadcast?).foldl Worker.trySend w else w) := by
  have hsame : (t.observe e).filterMap broadcast? = [] → u.workers[i]? = some w →
      u.workers[i]? = some (if t.streams.lookup w.id = some ⟨i⟩ then
        ((t.observe e).filterMap broadcast?).foldl Worker.trySend w else w) := by
    intro hobs hu
    rw [hobs, List.foldl_nil, ite_self, hu]
  cases h with
  | startLoad _ hpc hs ho =>
    have hsent := t.broadcast_getElem (m := .startLoad) hw
    simpa [observe, hpc, hs, ho, broadcast?] using hsent
  | finish _ hpc hs =>
    have hsent := t.broadcast_getElem (m := .terminate) hw
    simpa [observe, hpc, hs, broadcast?] using hsent
  | accept hpc hq =>
    -- the new worker stands behind the others
    refine hsame (by simp [observe, hq, broadcast?]) ?_
    exact (List.getElem?_append_left (List.getElem?_eq_some_iff.1 hw).1).trans hw
  | worker => exact absurd rfl (he _ _)
  | wait _ hpc hs =>
    refine hsame ?_ hw
    rcases hs with ⟨c, hs⟩ | ⟨hs, ho⟩ | hs <;> simp [observe, *]
  | _ => exact hsame (by simp [observe, broadcast?, *]) (by simpa using hw)

/-- An event lets out one thing at most. -/
theorem observe_length_le : (t.observe e).length ≤ 1 := by
  unfold observe
  split
  · split
    · simp
    · split
      · split <;> simp
      · simp
      · simp
    · simp
  · split
    · split <;> simp
    · simp
  · cases t.queue <;> simp
  · simp

/-- A listed stream that runs and has room is sent a message exactly when the
log has its broadcast. -/
theorem broadcast_mem_observe (h : Step t e u) {i : Nat} {w : Worker} (hw : t.workers[i]? = some w)
    (hl : t.streams.lookup w.id = some ⟨i⟩) (hd : w.isDone = false) (hr : w.inbox.length < internalProtBuffer)
    (m : WorkerMessage) :
    .broadcast m ∈ t.observe e ↔ ∃ w', u.workers[i]? = some w' ∧ w'.inbox = w.inbox ++ [m] := by
  by_cases he : ∀ j we, e ≠ .worker j we
  · rw [observe_sends h he hw, if_pos hl]
    have hle := observe_length_le (t := t) (e := e)
    cases hobs : t.observe e with
    | nil => simp
    | cons o os =>
      obtain rfl : os = [] := by simpa [hobs] using hle
      cases o with
      | broadcast m' => simp [broadcast?, Worker.trySend, hd, Nat.not_le.2 hr, eq_comm]
      | _ => simp [List.filterMap_cons, broadcast?]
  · -- a worker's own step only takes messages
    simp only [not_forall, not_not] at he
    obtain ⟨j, we, rfl⟩ := he
    cases h with
    | worker hs =>
      obtain ⟨v, v', hv, hstep, hws, -⟩ := TestController.workerStep_spec hs
      have hle := Worker.step_inbox_le hstep
      refine iff_of_false (by simp [observe]) ?_
      rintro ⟨w', hw', hin⟩
      have hlen := congrArg List.length hin
      rw [List.length_append, List.length_singleton] at hlen
      dsimp only at hw'
      rw [hws] at hw'
      by_cases hij : j = i
      · subst hij
        obtain rfl : v = w := Option.some.inj (hv.symm.trans hw)
        rw [List.getElem?_set_self (List.getElem?_eq_some_iff.1 hw).1, Option.some.injEq] at hw'
        subst hw'
        omega
      · rw [List.getElem?_set_ne hij, hw, Option.some.injEq] at hw'
        subst hw'
        omega

/-! ## The log of a run -/

/-- The state and the position of the controller, as the log tells them. -/
structure Logged (cookie : String) (os : List Observation) (t : ServerTest) : Prop where
  order : os.Pairwise InOrder
  states : ∀ s, .stored s ∈ os → s = .createStreams cookie ∨ s = .running ∨ s = .exchangeResults
  reached : ∀ s, .stored s ∈ os → s.rank ≤ t.state.rank
  last : (stores os).getLast?.getD .testStart = t.state
  /-- Between the write and the store of a state nothing else is let out. -/
  pending : ∀ s, os.getLast? = some (.announced s) ↔ t.pc = .storingState s
  paired : ∀ pre s o post, os = pre ++ .announced s :: o :: post → o = .stored s
  loads : ∀ pre post, os = pre ++ .broadcast .startLoad :: post → (stores pre).getLast? = some .running
  loaded : ∀ m, .broadcast m ∈ os → 2 ≤ t.oldState.rank ∨ 3 ≤ t.state.rank

theorem Logged.new (cookie : String) (params : TestParameters) : Logged cookie [] (new cookie params) := by
  constructor <;> simp [stores, ServerTest.new, TestController.new, PerfTest.new]

/-- A step that lets nothing out. -/
theorem Logged.quiet (h : Logged cookie os t) (hs : u.state = t.state)
    (hpc : ∀ s, u.pc = .storingState s ↔ t.pc = .storingState s) (ho : t.oldState.rank ≤ u.oldState.rank) :
    Logged cookie os u := by
  refine ⟨h.order, h.states, ?_, ?_, ?_, h.paired, h.loads, ?_⟩
  · rw [hs]
    exact h.reached
  · rw [hs]
    exact h.last
  · intro s
    rw [hpc]
    exact h.pending s
  · intro m hm
    rw [hs]
    exact (h.loaded m hm).imp_left (fun h => h.trans ho)

/-- A step that lets out `o`. -/
theorem Logged.snoc {o : Observation} (h : Logged cookie os t) (horder : ∀ a ∈ os, InOrder a o)
    (hstate : ∀ s, o = .stored s → (s = .createStreams cookie ∨ s = .running ∨ s = .exchangeResults) ∧ u.state = s)
    (hkeep : (∀ s, o ≠ .stored s) → u.state = t.state) (hpending : ∀ s, o = .announced s ↔ u.pc = .storingState s)
    (hpaired : ∀ s, t.pc = .storingState s → o = .stored s)
    (hloads : o = .broadcast .startLoad → t.state = .running)
    (hloaded : ∀ m, o = .broadcast m → 2 ≤ u.oldState.rank ∨ 3 ≤ u.state.rank)
    (hr : t.state.rank ≤ u.state.rank ∧ t.oldState.rank ≤ u.oldState.rank) : Logged cookie (os ++ [o]) u := by
  refine ⟨?_, ?_, ?_, ?_, ?_, ?_, ?_, ?_⟩
  · rw [List.pairwise_append]
    exact ⟨h.order, List.pairwise_singleton _ _, fun a ha b hb => List.mem_singleton.1 hb ▸ horder a ha⟩
  · intro s hs
    rcases List.mem_append.1 hs with hs | hs
    · exact h.states s hs
    · exact (hstate s (List.mem_singleton.1 hs).symm).1
  · intro s hs
    rcases List.mem_append.1 hs with hs | hs
    · exact (h.reached s hs).trans hr.1
    · rw [(hstate s (List.mem_singleton.1 hs).symm).2]
  · cases o with
    | stored s => simp [stores, stored?, (hstate s rfl).2]
    | _ => simpa [stores, stored?, hkeep (by simp)] using h.last
  · intro s
    rw [List.getLast?_concat, Option.some.injEq]
    exact hpending s
  · intro pre s o' post he
    rcases List.eq_nil_or_concat post with rfl | ⟨post, o'', rfl⟩
    · -- the pair ends the log
      have he' : os ++ [o] = (pre ++ [.announced s]) ++ [o'] := by simpa using he
      obtain ⟨hos, ho⟩ := List.append_inj' he' rfl
      obtain rfl : o = o' := by simpa using ho
      exact hpaired s ((h.pending s).1 (by rw [hos, List.getLast?_concat]))
    · have he' : os ++ [o] = (pre ++ .announced s :: o' :: post) ++ [o''] := by simpa using he
      exact h.paired pre s o' post (List.append_inj' he' rfl).1
  · intro pre post he
    rcases List.eq_nil_or_concat post with rfl | ⟨post, o', rfl⟩
    · obtain ⟨rfl, ho⟩ := List.append_inj' he rfl
      have hlast := h.last
      rw [hloads (by simpa using ho)] at hlast
      cases hl : (stores os).getLast? with
      | none => simp [hl] at hlast
      | some s => simpa [hl] using hlast
    · have he' : os ++ [o] = (pre ++ .broadcast .startLoad :: post) ++ [o'] := by simpa using he
      exact h.loads pre post (List.append_inj' he' rfl).1
  · intro m hm
    rcases List.mem_append.1 hm with hm | hm
    · exact (h.loaded m hm).imp (fun h => h.trans hr.2) (fun h => h.trans hr.1)
    · exact hloaded m (List.mem_singleton.1 hm).symm

/-- A message is taken while the state is an early one. -/
theorem Logged.recv (h : Logged cookie os t) (hp : Phase t) {m : ControllerMessage} (hpc : t.pc = .waiting)
    (hs : u.state = t.state) (hu : ∀ s, u.pc ≠ .storingState s) (ho : u.oldState = t.oldState) :
    Logged cookie (os ++ [.processed m]) u := by
  simp only [Phase, hpc] at hp
  refine h.snoc ?_ (by simp) (fun _ => hs) (by simpa using hu) (by simp [hpc]) (by simp) (by simp) (by simp [hs, ho])
  intro a ha
  unfold InOrder
  split
  · simp_all
  · simp_all
  · have := (h.reached _ ha).trans hp.2.rank_le
    simp [State.rank] at this
  · trivial

theorem acceptStream_pc (n : Nat) (s : State) : (t.acceptStream n).pc ≠ .storingState s := by
  simp only [acceptStream]
  split <;> simp

theorem afterTermination_pc (s : State) : t.afterTermination.pc ≠ .storingState s := by
  unfold afterTermination
  split <;> simp

theorem collectNext_pc (pending : Map StreamWorkerRef) (s : State) : (t.collectNext pending).pc ≠ .storingState s := by
  unfold collectNext
  split <;> simp

theorem logged_step (h : Step t e u) (hp : Phase t) (hc : t.cookie = cookie) (hi : Logged cookie os t) :
    Logged cookie (os ++ t.observe e) u := by
  have hr := rank_step h hp
  cases h with
  | start _ hpc | announce _ hpc hs =>
    simp only [observe, *, List.append_nil]
    exact hi.quiet rfl (by simp [hpc]) hr.2
  | wait _ hpc hs =>
    have hobs : t.observe .lock = [] := by
      rcases hs with ⟨c, hs⟩ | ⟨hs, ho⟩ | hs <;> simp [observe, *]
    rw [hobs, List.append_nil]
    exact hi.quiet rfl (by simp [hpc]) hr.2
  | startLoad _ hpc hs ho =>
    have hold := hp.startLoad hpc hs ho
    simp only [observe, hpc, hs, if_pos ho]
    refine hi.snoc (fun a ha => ?_) (by simp) (fun _ => by simp) (by simp) (by simp [hpc]) (fun _ => hs)
      (by simp [State.rank]) (by simpa [hs] using hr)
    cases a with
    | broadcast m =>
      -- an earlier broadcast would have moved the loop's copy of the state on
      have := hi.loaded m ha
      rw [hold, hs] at this
      simp [State.rank] at this
    | _ => trivial
  | finish _ hpc hs =>
    simp only [observe, hpc, hs]
    refine hi.snoc (fun a _ => ?_) (by simp) (fun _ => by simp) ?_ (by simp [hpc]) (by simp)
      (fun _ _ => .inr (by simp [hs, State.rank])) (by simp)
    · cases a <;> trivial
    · intro s
      simpa using collectNext_pc t.streams s
  | store _ hpc =>
    simp only [observe, hpc]
    simp only [Phase, hpc] at hp
    refine hi.snoc (fun a ha => ?_) ?_ (by simp) (by simp) (by simp [hpc]) (by simp) (by simp) hr
    · cases a with
      | stored s' => exact (hi.reached s' ha).trans hp.2.rank_le
      | _ => trivial
    · rintro s' ⟨⟩
      have ht := hp.2
      rw [hc] at ht
      generalize t.state = s₀ at ht
      cases ht <;> simp
  | wrote hpc =>
    simp only [observe, hpc, if_true]
    refine hi.snoc (fun a _ => ?_) (by simp) (by simp) (by simp) (by simp [hpc]) (by simp) (by simp) hr
    cases a <;> trivial
  | writeFailed hpc | writeIgnored hpc | sentResults hpc | sendFailed hpc =>
    simp only [observe, hpc, Bool.false_eq_true, if_false, List.append_nil]
    exact hi.quiet rfl (by simp [hpc]) hr.2
  | accept hpc hq =>
    simp only [observe, hq, List.head?_cons, Option.map_some, Option.toList_some]
    exact hi.recv hp hpc rfl (acceptStream_pc _) rfl
  | terminated hpc hq =>
    simp only [observe, hq, List.head?_cons, Option.map_some, Option.toList_some]
    exact hi.recv hp hpc rfl (by simp) rfl
  | unknown hpc hq =>
    simp only [observe, hq, List.head?_cons, Option.map_some, Option.toList_some]
    exact hi.recv hp hpc rfl afterTermination_pc rfl
  | joined hpc =>
    simp only [observe, List.append_nil]
    refine hi.quiet (by simp) (fun s => ?_) hr.2
    simp [hpc, afterTermination_pc]
  | collected hpc | timedOut hpc =>
    simp only [observe, List.append_nil]
    refine hi.quiet (by simp) (fun s => ?_) hr.2
    simp [hpc, collectNext_pc]
  | worker hw =>
    simp only [observe, List.append_nil]
    exact hi.quiet (by simp [workerStep_test hw]) (by simp) hr.2
  | joinFailed hpc | readFailed hpc | readResults hpc | readOther hpc =>
    simp only [observe, List.append_nil]
    exact hi.quiet rfl (by simp [hpc]) hr.2
  | guard | unguard | offer | vanish =>
    simp only [observe, List.append_nil]
    exact hi.quiet rfl (by simp) hr.2

/-- The server's state machine only moves forward, whatever messages and ends
of workers, and whatever outcomes of writes and joins, its controller meets. -/
theorem moves_forward {cookie : String} {params : TestParameters} {es : List ServerEvent} {t : ServerTest}
    (h : Run step Any (new cookie params) es t) :
    let os := log step observe (new cookie params) es
    t.sent.filter isState = os.filterMap frame? ∧ t.handled = os.filterMap message? ∧ os.Pairwise InOrder ∧
      (∀ s, .stored s ∈ os → s = .createStreams cookie ∨ s = .running ∨ s = .exchangeResults) ∧
      (stores os).getLast?.getD .testStart = t.state ∧
      (∀ pre s o post, os = pre ++ .announced s :: o :: post → o = .stored s) ∧
      (∀ pre post, os = pre ++ .broadcast .startLoad :: post → (stores pre).getLast? = some .running) := by
  have main : Phase t ∧ t.cookie = cookie ∧ Logged cookie (log step observe (new cookie params) es) t := by
    refine h.inv_log (fun os t => Phase t ∧ t.cookie = cookie ∧ Logged cookie os t) ⟨⟨rfl, rfl⟩, rfl, .new _ _⟩ ?_
    rintro os t e u ⟨hp, hc, hi⟩ - hs
    have hstep := step_cases hs
    exact ⟨phase_step hstep hp, (congrArg Prod.fst (config_of_step hstep)).trans hc, logged_step hstep hp hc hi⟩
  have hlog : t.sent.filter isState = (log step observe (new cookie params) es).filterMap frame? ∧
      t.handled = (log step observe (new cookie params) es).filterMap message? := by
    refine h.inv_log (fun os t => t.sent.filter isState = os.filterMap frame? ∧ t.handled = os.filterMap message?)
      ⟨rfl, rfl⟩ ?_
    rintro os t e u ⟨hf, hm⟩ - hs
    obtain ⟨h1, h2⟩ := observe_spec (step_cases hs)
    rw [List.filterMap_append, List.filterMap_append, h1, h2, hf, hm]
    exact ⟨rfl, rfl⟩
  obtain ⟨-, -, hl⟩ := main
  exact ⟨hlog.1, hlog.2, hl.order, hl.states, hl.last, hl.paired, hl.loads⟩

/-- A test with one stream, up to the end of its load. -/
theorem moves_forward_one : ∃ es t, Run step Any (new "c" (uploadParams 1)) es t ∧ t.state = .exchangeResults ∧
    (log step observe (new "c" (uploadParams 1)) es).Pairwise InOrder := by
  obtain ⟨t, hrun, ht⟩ := exists_run_of_exec step Any (new "c" (uploadParams 1))
    (announceRun ++ connectRun 1 ++ loadRun 1 ++ [.recv, .join, .write true, .lock, .lock])
    (fun t => t.state = .exchangeResults) (by decide +kernel)
  exact ⟨_, t, hrun, by simpa using ht, (moves_forward hrun).2.2.1⟩

end ServerTest

end Netperf
