import Netperf.ServerPhases
import Netperf.Notices
/-!
# The end of the load

When the last stream is gone the controller asks for `ExchangeResults`, and
ignores whether `set_state` succeeded. If the frame was written the test ends;
if not the state is still the old one, and the controller waits for messages
with no stream left to send one.
-/

namespace Netperf.ServerTest

open Maps Runs

/-- The event takes a `StreamTerminated`, or goes on with one whose task had to
be joined. -/
def HandlesNotice (t : ServerTest) : ServerEvent → Prop
  | .recv => ∃ id rest, t.queue = .streamTerminated id :: rest
  | .join => True
  | _ => False

def NoWrite (_ : ServerTest) (e : ServerEvent) : Prop := ∀ ok, e ≠ .write ok

/-- From the write's outcome `w` on the controller never waits for messages
again: the `SetState` frame is out, and its next state is `ExchangeResults`. -/
def EndReached (v w : ServerTest) : Prop :=
  w.sent = v.sent ++ [.setState .exchangeResults] ∧
    ∀ x, Reach step w x → x.pc ≠ .waiting ∧ (x.pc = .loopTop → x.state = .exchangeResults)

/-! ## Up to the write -/

theorem afterTermination_last {t : ServerTest} (h : t.streams = ∅) :
    t.afterTermination.pc = .writingState .exchangeResults .ignore := by
  simp [afterTermination, h]

/-- Once the last stream is handled the controller has failed to join it, or
is about to write the new state. -/
theorem handled_last {t u : ServerTest} {e : ServerEvent} (h : Step t e u) (hn : HandlesNotice t e)
    (hj : ∀ id ref, u.pc ≠ .joining id ref) (hs : u.streams = ∅) :
    u.pc = .returned none ∨ u.pc = .writingState .exchangeResults .ignore := by
  cases h with
  | accept _ hq =>
    obtain ⟨id, rest, hq'⟩ := hn
    rw [hq] at hq'
    cases hq'
  | terminated => exact absurd rfl (hj _ _)
  | unknown => exact .inr (afterTermination_last hs)
  | joined => exact .inr (afterTermination_last hs)
  | joinFailed => exact .inl rfl
  | _ => exact hn.elim

/-- While a write is pending, no event but its outcome touches the map. -/
theorem writing_kept {s : State} {k : OnError} {u v : ServerTest} {es : List ServerEvent}
    (h : Run step NoWrite u es v) (hu : u.pc = .writingState s k) (he : u.streams = ∅) :
    v.pc = .writingState s k ∧ v.streams = ∅ := by
  refine h.inv (fun t => t.pc = .writingState s k ∧ t.streams = ∅) ⟨hu, he⟩ ?_
  intro t e t' ht hc hs
  cases step_cases hs with
  | worker hw => exact ⟨ht.1, by simpa [workerStep_test hw] using ht.2⟩
  | guard | unguard | offer | vanish => exact ht
  | wrote | writeFailed | writeIgnored | sentResults | sendFailed => exact absurd rfl (hc _)
  | _ => simp_all

/-! ## After the write -/

/-- The new state is being stored, or is stored and the test is ending. -/
def Ending (x : ServerTest) : Prop :=
  match x.pc with
  | .storingState s => s = .exchangeResults
  | .loopTop | .collecting _ | .readingResults _ | .sendingResults _ _ => x.state = .exchangeResults
  | .returned _ => True
  | _ => False

theorem ending_collectNext {t : ServerTest} {pending : Map StreamWorkerRef} (h : t.state = .exchangeResults) :
    Ending (t.collectNext pending) := by
  by_cases he : len pending = 0
  · simpa only [Ending, collectNext, if_pos he] using h
  · simpa only [Ending, collectNext, if_neg he] using h

theorem ending_step {x y : ServerTest} {e : ServerEvent} (h : Step x e y) (hi : Ending x) : Ending y := by
  cases h with
  | worker hw =>
    unfold Ending at *
    simp only [workerStep_test hw]
    exact hi
  | guard | unguard | offer | vanish => exact hi
  | startLoad _ hpc hs =>
    simp only [Ending, hpc, hs] at hi
    cases hi
  | announce _ hpc hs =>
    simp only [Ending, hpc, hs] at hi
    cases hi
  | wait _ hpc hs =>
    simp only [Ending, hpc] at hi
    rw [hi] at hs
    simp at hs
  | finish _ _ hs => exact ending_collectNext hs
  | store _ hpc =>
    simp only [Ending, hpc] at hi
    exact hi
  | collected hpc =>
    simp only [Ending, hpc] at hi
    exact ending_collectNext (by simpa using hi)
  | timedOut hpc =>
    simp only [Ending, hpc] at hi
    exact ending_collectNext hi
  | readFailed | sentResults | sendFailed => trivial
  | readResults hpc | readOther hpc =>
    simp only [Ending, hpc] at hi
    exact hi
  | start _ hpc | wrote hpc | writeFailed hpc | writeIgnored hpc =>
    simp only [Ending, hpc] at hi
  | accept hpc | terminated hpc | unknown hpc | joined hpc | joinFailed hpc =>
    simp only [Ending, hpc] at hi

theorem ending_reach {w x : ServerTest} (hw : Ending w) (h : Reach step w x) : Ending x :=
  h.inv Ending hw (fun _ _ _ hi hs => ending_step (step_cases hs) hi)

/-- A written frame ends the test. -/
theorem endReached_of_wrote {v : ServerTest} :
    EndReached v { v with sent := v.sent ++ [.setState .exchangeResults], pc := .storingState .exchangeResults } := by
  refine ⟨rfl, fun x hx => ?_⟩
  have he := ending_reach (by rfl) hx
  unfold Ending at he
  constructor
  · intro hpc
    simp only [hpc] at he
  · intro hpc
    simpa only [hpc] using he

/-- The controller waits for a message, and has no stream left to send one. -/
def Stranded (x : ServerTest) : Prop := x.pc = .waiting ∧ x.streams = ∅

/-- At the top of the loop in an old state, the controller goes back to waiting. -/
theorem strands {w : ServerTest} (hpc : w.pc = .loopTop) (ho : w.oldState = w.state) (hs : Serving w.cookie w.state)
    (he : w.streams = ∅) : ∃ x, Reach step w x ∧ Stranded x := by
  -- the lock is free, or the accept loop drops it first
  have unlocked : ∃ x, Reach step w x ∧ x.locked = false ∧ x.pc = .loopTop ∧ x.oldState = x.state ∧
      Serving x.cookie x.state ∧ x.streams = ∅ := by
    cases hl : w.locked with
    | false => exact ⟨w, .refl, hl, hpc, ho, hs, he⟩
    | true =>
      refine ⟨{ w with locked := false }, Reach.refl.next (e := .unguard) ?_, rfl, hpc, ho, hs, he⟩
      simp [step, hl]
  obtain ⟨x, hx, hl, hpc, ho, hs, he⟩ := unlocked
  refine ⟨{ x with oldState := x.state, pc := .waiting }, hx.next (e := .lock) ?_, rfl, he⟩
  rcases hs with hs | hs <;> simp [step, turn, hl, hpc, ho, hs]

/-- The end of the load is reached if and only if `SetState(ExchangeResults)`
can be written. After the last notice the controller has returned, or comes to
that write whatever happens in between; a failed write leaves it waiting with
no stream. -/
theorem end_of_load {cookie : String} {params : TestParameters} {t u : ServerTest} {e : ServerEvent}
    (ht : Reach step (new cookie params) t) (hs : t.step e = some u) (hn : HandlesNotice t e)
    (hj : ∀ id ref, u.pc ≠ .joining id ref) (he : u.streams = ∅) :
    u.pc = .returned none ∨ ∀ es v, Run step NoWrite u es v → ∀ ok, ∃ w, v.step (.write ok) = some w ∧
      (EndReached v w ↔ ok = true) ∧ (ok = false → ∃ x, Reach step w x ∧ Stranded x) := by
  rcases handled_last (step_cases hs) hn hj he with hr | hpc
  · exact .inl hr
  refine .inr (fun es v hv ok => ?_)
  obtain ⟨hpc, he⟩ := writing_kept hv hpc he
  have hphase := phase_reach ((ht.next hs).trans hv.reach)
  simp only [Phase, hpc] at hphase
  cases ok with
  | true => exact ⟨_, by simp [step, hpc], iff_of_true endReached_of_wrote rfl, by simp⟩
  | false =>
    refine ⟨{ v with pc := .loopTop }, by simp [step, hpc], iff_of_false (fun h => ?_) (by simp), ?_⟩
    · have hlen := congrArg List.length h.1
      simp at hlen
    · intro _
      exact strands rfl hphase.1 (hphase.2.1.serving rfl) he

/-- One stream, whose notice is taken and whose task is joined. -/
def lastNoticeRun : List ServerEvent := announceRun ++ connectRun 1 ++ loadRun 1 ++ [.recv]

theorem end_of_load_one : ∃ t u, Reach step (new "c" (uploadParams 1)) t ∧ t.step .join = some u ∧
    u.returned = false ∧ (u.pc = .returned none ∨ ∀ es v, Run step NoWrite u es v → ∀ ok, ∃ w,
      v.step (.write ok) = some w ∧ (EndReached v w ↔ ok = true) ∧
        (ok = false → ∃ x, Reach step w x ∧ Stranded x)) := by
  obtain ⟨t, ht, hp⟩ := exists_of_exec step (new "c" (uploadParams 1)) lastNoticeRun
    (fun t => (t.step .join).any (fun u => u.pc = .writingState .exchangeResults .ignore ∧ len u.streams = 0))
    (by decide +kernel)
  simp only [Option.any_eq_true_iff_get, decide_eq_true_eq] at hp
  obtain ⟨hsome, hpc, hlen⟩ := hp
  have hu := (Option.some_get hsome).symm
  refine ⟨t, _, ht, hu, by simp [returned, hpc], end_of_load ht hu trivial (by simp [hpc]) (len_eq_zero.1 hlen)⟩

/-- The write fails after the last stream is gone: the controller waits on an
empty channel, with no stream left and no worker running. -/
theorem end_of_load_missed : ∃ t u w, Reach step (new "c" (uploadParams 1)) t ∧ t.step .join = some u ∧
    u.streams = ∅ ∧ u.returned = false ∧ u.step (.write false) = some w ∧ ¬ EndReached u w ∧
    ∃ x, Reach step w x ∧ Stranded x ∧ x.queue = [] ∧ x.workers.all Worker.isDone = true := by
  obtain ⟨t, ht, hp⟩ := exists_of_exec step (new "c" (uploadParams 1)) lastNoticeRun
    (fun t => (t.step .join).any (fun u => len u.streams = 0 ∧ u.returned = false ∧
      (u.step (.write false)).any (fun w => w.sent.length = u.sent.length ∧
        (w.step .lock).any (fun x => x.pc = .waiting ∧ len x.streams = 0 ∧ x.queue = [] ∧
          x.workers.all Worker.isDone = true)))) (by decide +kernel)
  simp only [Option.any_eq_true, decide_eq_true_eq] at hp
  obtain ⟨u, hu, hlen, hr, w, hw, hsent, x, hx, hpc, hlen', hq, hd⟩ := hp
  refine ⟨t, u, w, ht, hu, len_eq_zero.1 hlen, hr, hw, fun h => ?_, x, Reach.refl.next hx,
    ⟨hpc, len_eq_zero.1 hlen'⟩, hq, hd⟩
  rw [h.1] at hsent
  simp at hsent

end Netperf.ServerTest
