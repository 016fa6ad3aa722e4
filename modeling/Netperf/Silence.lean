import Netperf.ServerLoop
/-!
# Silent peers

The accept loop waits for the bytes of one peer at a time. Only the wait for
the test parameters has a timer, and the `Hello` of a data connection is read
with the guard of the running test's state held.
-/

namespace Netperf

open Frames Runs

/-- The steps of the accept loop and of the controllers. -/
def NetEvent.ofLoopOrController : NetEvent → Bool
  | .test _ (.lock) | .test _ (.write _) | .test _ .recv | .test _ .join | .test _ (.collect _ _) |
    .test _ (.read _) => true
  | .test _ _ => false
  | _ => true

namespace Server

/-- The loop reads from an inbound connection. -/
def WaitsForBytes (s : Server) : Prop :=
  match s.pc with
  | .helloData _ _ _ | .hello _ | .params _ _ _ => True
  | _ => False

/-- A peer may stay silent: a timer ends the wait, no test's mutex is held, and
not everybody is stuck. -/
structure SilenceHarmless (decode : List UInt8 → Option ClientEnvelope) (s : Server) : Prop where
  timer : ∃ u, s.step decode .timeout = some u ∧ u.pc = .accepting
  unlocked : ∀ (k : Nat) (t : ServerTest), s.tests[k]? = some t → t.locked = false
  enabled : ∃ e, NetEvent.ofLoopOrController e = true ∧ (s.step decode e).isSome = true

/-- In every reachable state in which the loop waits for bytes, silence is
harmless if and only if it waits for the test parameters. -/
theorem silence_harmless_iff {decode : List UInt8 → Option ClientEnvelope} {s : Server}
    (h : Reach (step decode) init s) (hw : WaitsForBytes s) :
    SilenceHarmless decode s ↔ ∃ c cookie socket, s.pc = .params c cookie socket := by
  constructor
  · rintro ⟨⟨u, hu, -⟩, -, -⟩
    unfold WaitsForBytes at hw
    split at hw
    · rename_i hpc
      simp [step, hpc] at hu
    · rename_i hpc
      simp [step, hpc] at hu
    · rename_i c cookie socket hpc
      exact ⟨c, cookie, socket, hpc⟩
    · exact hw.elim
  · rintro ⟨c, cookie, socket, hpc⟩
    have hstep : s.step decode .timeout = some { s with pc := .accepting } := by simp [step, hpc]
    refine ⟨⟨_, hstep, rfl⟩, fun k t ht => ?_, ⟨.timeout, rfl, by simp [hstep]⟩⟩
    by_contra hl
    have hheld := ((wired_reach h).locks k t ht).1 (by simpa using hl)
    simp [hpc, AcceptPc.held] at hheld

/-- A peer that names itself and sends no parameters is timed out. -/
theorem silence_harmless_params : ∃ s, Reach (step startDecode) init s ∧ WaitsForBytes s ∧
    (SilenceHarmless startDecode s ↔ ∃ c cookie socket, s.pc = .params c cookie socket) := by
  obtain ⟨s, hr, hs⟩ := exists_of_exec (step startDecode) init
    [.accept (peer [.clientMessage (.hello "c")] false), .read, .write true] (fun s => s.pc = .params 0 "c" ⟨[], false⟩)
    (by decide +kernel)
  have hpc : s.pc = .params 0 "c" ⟨[], false⟩ := by simpa using hs
  have hw : WaitsForBytes s := by simp [WaitsForBytes, hpc]
  exact ⟨s, hr, hw, silence_harmless_iff hr hw⟩

/-- A third party connects while the streams of a test are expected, and sends
nothing: neither the accept loop nor the controller has a step to take. -/
theorem silence_stalls : ∃ s, Reach (step startDecode) init s ∧ WaitsForBytes s ∧ ¬ SilenceHarmless startDecode s ∧
    (∃ t ∈ s.tests, t.returned = false) ∧
    ∀ e, NetEvent.ofLoopOrController e = true → s.step startDecode e = none := by
  obtain ⟨s, hr, hs⟩ := exists_of_exec (step startDecode) init
    (startRun.dropLast ++ [.accept (peer [] false), .lock])
    (fun s => s.pc = .helloData 1 0 "c" ∧ s.conns[1]? = some ⟨[], false⟩ ∧ s.tests.length = 1 ∧
      s.tests.all (fun t => t.locked ∧ t.pc = .loopTop)) (by decide +kernel)
  simp only [List.all_eq_true, decide_eq_true_eq] at hs
  obtain ⟨hpc, hconn, hlen, ht⟩ := hs
  obtain ⟨t, htests⟩ := List.length_eq_one_iff.1 hlen
  obtain ⟨hl, htpc⟩ := ht t (by simp [htests])
  have hw : WaitsForBytes s := by simp [WaitsForBytes, hpc]
  refine ⟨s, hr, hw, ?_, ⟨t, by simp [htests], by simp [ServerTest.returned, htpc]⟩, ?_⟩
  · intro hs
    obtain ⟨u, hu, -⟩ := hs.timer
    simp [step, hpc] at hu
  · intro e he
    cases e with
    | read => simp [step, hpc, hconn, readCookie, serverReadMessage, readMessage, readControlMessage, Source.fill, fillFrom,
        messageLengthSizeBytes]
    | test k e =>
      cases k with
      | zero => cases e <;> simp_all [step, ServerTest.step, NetEvent.ofLoopOrController]
      | succ k => simp [step, htests]
    | _ => simp [step, hpc]

end Server

end Netperf
