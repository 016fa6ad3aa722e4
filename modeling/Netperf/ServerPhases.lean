import Netperf.ServerTest
/-!
# The phases of a test on the server

Where the controller waits determines how the stored state and `old_state` are
related. `set_state` validates nothing: that the state only goes from
`TestStart` over `CreateStreams` and `Running` to `ExchangeResults` is a fact
about the loop.
-/

namespace Netperf.ServerTest

open Maps Runs

/-- The state changes the loop asks for, in a test with this cookie. -/
inductive Transit (cookie : String) : State → State → Prop
  | create : Transit cookie .testStart (.createStreams cookie)
  | run : Transit cookie (.createStreams cookie) .running
  /-- A surplus stream makes the map reach the needed size once more. -/
  | rerun : Transit cookie .running .running
  | abandon : Transit cookie (.createStreams cookie) .exchangeResults
  | finish : Transit cookie .running .exchangeResults

/-- The states in which the controller takes messages. -/
def Serving (cookie : String) (s : State) : Prop := s = .createStreams cookie ∨ s = .running

def Phase (t : ServerTest) : Prop :=
  match t.pc with
  | .start => t.state = .testStart ∧ t.oldState = .testStart
  | .loopTop =>
    (t.oldState = t.state ∧ (t.state = .testStart ∨ Serving t.cookie t.state)) ∨ Transit t.cookie t.oldState t.state
  | .waiting => t.oldState = t.state ∧ Serving t.cookie t.state
  | .joining _ _ => t.oldState = t.state ∧ Serving t.cookie t.state
  | .writingState s k => t.oldState = t.state ∧ Transit t.cookie t.state s ∧ (k = .ignore ↔ s = .exchangeResults)
  | .storingState s => t.oldState = t.state ∧ Transit t.cookie t.state s
  | .returned _ => ∀ c, t.state = .createStreams c → c = t.cookie
  | _ => t.state = .exchangeResults

section
variable {cookie c : String} {s s' : State}

theorem Transit.create_cookie (h : Transit cookie s s') (hs : s' = .createStreams c) : c = cookie := by
  cases h <;> cases hs
  rfl

theorem Transit.source_cookie (h : Transit cookie s s') (hs : s = .createStreams c) : c = cookie := by
  cases h <;> cases hs <;> rfl

theorem Transit.not_testStart (h : Transit cookie s s') : s' ≠ .testStart ∧ s' ≠ .displayResults := by
  cases h <;> simp

theorem Transit.not_ended (h : Transit cookie s s') : s ≠ .exchangeResults := by
  cases h <;> simp

theorem Transit.not_back (h : Transit cookie s (.createStreams c)) : s ≠ .running := by
  rintro rfl
  cases h

theorem Transit.serving (h : Transit cookie s s') (hs : s' = .exchangeResults) : Serving cookie s := by
  cases h <;> cases hs
  · exact .inl rfl
  · exact .inr rfl

end

theorem Transit.of_serving {cookie : String} {s : State} (h : Serving cookie s) :
    Transit cookie s .running ∧ Transit cookie s .exchangeResults := by
  rcases h with rfl | rfl
  · exact ⟨.run, .abandon⟩
  · exact ⟨.rerun, .finish⟩

/-! ## Every event keeps the phase -/

theorem phase_acceptStream {t : ServerTest} (s : Nat) (ho : t.oldState = t.state) (hs : Serving t.cookie t.state) :
    Phase (t.acceptStream s) := by
  by_cases h : len (t.createAndRegisterStreamWorker s).streams = t.totalNeededStreams
  · simp only [Phase, acceptStream, if_pos h]
    exact ⟨ho, (Transit.of_serving hs).1, by simp⟩
  · simp only [Phase, acceptStream, if_neg h]
    exact .inl ⟨ho, .inr hs⟩

theorem phase_afterTermination {t : ServerTest} (ho : t.oldState = t.state) (hs : Serving t.cookie t.state) :
    Phase t.afterTermination := by
  by_cases h : len t.streams = 0
  · simp only [Phase, afterTermination, if_pos h]
    exact ⟨ho, (Transit.of_serving hs).2, by simp⟩
  · simp only [Phase, afterTermination, if_neg h]
    exact .inl ⟨ho, .inr hs⟩

theorem phase_collectNext {t : ServerTest} (pending : Map StreamWorkerRef) (hs : t.state = .exchangeResults) :
    Phase (t.collectNext pending) := by
  by_cases h : len pending = 0
  · simpa only [Phase, collectNext, if_pos h] using hs
  · simpa only [Phase, collectNext, if_neg h] using hs

/-- Whatever its phase, a stored `CreateStreams` carries the test's cookie. -/
theorem Phase.cookie {t : ServerTest} (h : Phase t) {c : String} (hs : t.state = .createStreams c) :
    c = t.cookie := by
  unfold Phase at h
  split at h
  case h_1 => simp [hs] at h
  case h_2 =>
    rw [hs] at h
    rcases h with ⟨-, h | h | h⟩ | h
    · cases h
    · exact State.createStreams.inj h
    · cases h
    · exact h.create_cookie rfl
  case h_5 => exact h.2.1.source_cookie hs
  case h_6 => exact h.2.source_cookie hs
  case h_7 => exact h c hs
  case h_8 => rw [hs] at h; cases h
  all_goals
    rw [hs] at h
    rcases h with ⟨-, h | h⟩
    · exact State.createStreams.inj h
    · cases h

/-- The controller waits for messages only in a gathering test or in one it has seen running. -/
theorem Phase.waits {t : ServerTest} (hp : Phase t) (hpc : t.pc = .loopTop)
    (hs : (∃ cookie, t.state = .createStreams cookie) ∨ (t.state = .running ∧ t.oldState = .running) ∨
      t.state = .displayResults) :
    ((∃ cookie, t.state = .createStreams cookie) ∧ t.oldState ≠ .running) ∨
      (t.state = .running ∧ t.oldState = .running) := by
  simp only [Phase, hpc] at hp
  rcases hs with ⟨c, hs⟩ | hs | hs
  · -- no stored state follows `Running`
    refine .inl ⟨⟨c, hs⟩, ?_⟩
    rw [hs] at hp
    rcases hp with ⟨ho, -⟩ | ht
    · simp [ho]
    · exact ht.not_back
  · exact .inr hs
  · rw [hs] at hp
    rcases hp with ⟨-, hp | hp | hp⟩ | hp
    · cases hp
    · cases hp
    · cases hp
    · exact absurd rfl hp.not_testStart.2

theorem phase_worker {t : ServerTest} {c : TestController} (hp : c.toPerfTest = t.toPerfTest) (h : Phase t) :
    Phase { t with toTestController := c } := by
  unfold Phase at *
  simp only [hp]
  exact h

theorem phase_step {t u : ServerTest} {e : ServerEvent} (h : Step t e u) (hi : Phase t) : Phase u := by
  have hcookie := fun c => hi.cookie (c := c)
  cases h with
  | start _ hpc =>
    simp only [Phase, hpc] at hi
    exact .inl ⟨rfl, .inl hi.1⟩
  | announce _ hpc hs =>
    simp only [Phase, hpc, hs] at hi
    rcases hi with ⟨ho, -⟩ | hi
    · simp only [Phase, ho, hs]
      exact ⟨trivial, .create, by simp⟩
    · exact absurd rfl hi.not_testStart.1
  | startLoad _ _ hs => exact ⟨rfl, .inr hs⟩
  | wait _ hpc hs =>
    refine ⟨rfl, ?_⟩
    rcases hi.waits hpc hs with ⟨⟨c, hs⟩, -⟩ | ⟨hs, -⟩
    · rw [hs, hcookie c hs]; exact .inl rfl
    · exact .inr hs
  | finish _ _ hs => exact phase_collectNext _ hs
  | store _ hpc =>
    simp only [Phase, hpc] at hi
    exact .inr (hi.1 ▸ hi.2)
  | wrote hpc =>
    simp only [Phase, hpc] at hi
    exact ⟨hi.1, hi.2.1⟩
  | writeIgnored hpc =>
    simp only [Phase, hpc] at hi
    obtain ⟨ho, ht, hk⟩ := hi
    exact .inl ⟨ho, .inr (ht.serving (hk.1 trivial))⟩
  | accept hpc => simp only [Phase, hpc] at hi; exact phase_acceptStream _ hi.1 hi.2
  | terminated hpc => simp only [Phase, hpc] at hi; exact hi
  | unknown hpc => simp only [Phase, hpc] at hi; exact phase_afterTermination hi.1 hi.2
  | joined hpc =>
    simp only [Phase, hpc] at hi
    refine phase_afterTermination ?_ ?_ <;> simpa using (by first | exact hi.1 | exact hi.2)
  | collected hpc =>
    simp only [Phase, hpc] at hi
    exact phase_collectNext _ (by simpa using hi)
  | timedOut hpc => simp only [Phase, hpc] at hi; exact phase_collectNext _ hi
  | readResults hpc | readOther hpc => simp only [Phase, hpc] at hi; exact hi
  | worker hw => exact phase_worker (workerStep_test hw) hi
  | guard | unguard | offer | vanish => exact hi
  | _ => exact hcookie

theorem phase_reach {cookie : String} {params : TestParameters} {t : ServerTest}
    (h : Reach step (new cookie params) t) : Phase t :=
  h.inv Phase ⟨rfl, rfl⟩ (fun _ _ _ hi hs => phase_step (step_cases hs) hi)

end Netperf.ServerTest
