import Netperf.ServerLoop
/-!
# Handling a connection

Most failures of a connection are logged or ignored. Three are propagated by
`run_server`, all of them on a data connection while streams are expected: a
`Hello` that cannot be read, a `Welcome` that cannot be written, and a
controller that does not take the connection.
-/

namespace Netperf

open Frames Runs

/-- The bytes begin with the frame of a `Hello`. -/
def BeginsWithHello (decode : List UInt8 → Option ClientEnvelope) (bytes : List UInt8) : Prop :=
  ∃ payload back cookie, bytes = frame payload ++ back ∧ payload.length ≤ maxControlMessage ∧
    decode payload = some (.clientMessage (.hello cookie))

theorem readCookie_ok_iff {decode : List UInt8 → Option ClientEnvelope} {socket : Source} :
    (∃ cookie rest, readCookie decode socket = .ok cookie rest) ↔ BeginsWithHello decode socket.bytes := by
  constructor
  · rintro ⟨cookie, rest, h⟩
    rcases readControlMessage_cases decode socket with ⟨payload, rest', obj, hb, hlen, hd, hr⟩ | ⟨e, rest', hr⟩ | ⟨hr, -⟩
    · refine ⟨payload, rest'.bytes, cookie, hb, hlen, ?_⟩
      simp only [readCookie, serverReadMessage, readMessage, hr] at h
      rcases obj with (_ | _ | _) | _ <;> simp_all [ClientEnvelope.result]
    · simp [readCookie, serverReadMessage, readMessage, hr] at h
    · simp [readCookie, serverReadMessage, readMessage, hr] at h
  · rintro ⟨payload, back, cookie, hb, hlen, hd⟩
    obtain ⟨rest, -, -, hr⟩ := readControlMessage_frame decode hlen socket hb
    refine ⟨cookie, rest, ?_⟩
    simp only [readCookie, serverReadMessage, readMessage, hr, hd, ClientEnvelope.result]

/-- The steps the loop takes for the connection at hand. -/
def NetEvent.ofHandling : NetEvent → Bool
  | .lock | .read | .write _ | .send | .timeout => true
  | _ => false

/-- The steps left until the loop is back, at most. -/
def AcceptPc.left : AcceptPc → Nat
  | .accepting | .returned => 0
  | .handing _ _ | .denying _ _ | .params _ _ _ => 1
  | .welcomeData _ _ | .welcome _ _ _ => 2
  | .helloData _ _ _ | .hello _ => 3
  | .locking _ _ => 4

namespace Server
variable {decode : List UInt8 → Option ClientEnvelope} {s u : Server} {e : NetEvent} {es : List NetEvent}

/-- The events that do not make `run_server` return. -/
def Graceful (decode : List UInt8 → Option ClientEnvelope) (s : Server) (e : NetEvent) : Prop :=
  match s.pc, e with
  | .helloData c _ _, .read => ∃ socket, s.conns[c]? = some socket ∧ BeginsWithHello decode socket.bytes
  | .welcomeData _ _, .write ok => ok = true
  | .handing _ k, .send => ∃ t, s.tests[k]? = some t ∧ t.returned = false ∧ t.queue.length < internalProtBuffer
  | _, _ => True

theorem handOver_isSome {c j : Nat} {t : ServerTest} (hj : s.channel = some j) (ht : s.tests[j]? = some t) :
    (s.handOver c).isSome = true ↔ t.returned = false ∧ t.queue.length < internalProtBuffer := by
  simp only [handOver, hj, ht, TestController.trySend]
  cases hr : t.returned <;> by_cases hq : t.queue.length < internalProtBuffer <;> simp [hq]

theorem graceful_step (hw : Wired s) (h : Step decode s e u) : u.pc ≠ .returned ↔ Graceful decode s e := by
  cases h with
  | matched hpc hconn hread =>
    simp only [Graceful, hpc]
    exact iff_of_true (by simp) ⟨_, hconn, readCookie_ok_iff.1 ⟨_, _, hread⟩⟩
  | foreign hpc hconn hread =>
    simp only [Graceful, hpc]
    exact iff_of_true (by simp) ⟨_, hconn, readCookie_ok_iff.1 ⟨_, _, hread⟩⟩
  | malformed hpc hconn hpend hok =>
    simp only [Graceful, hpc]
    apply iff_of_false (fun h => h rfl)
    rintro ⟨socket, hs, hhello⟩
    rw [hconn, Option.some.injEq] at hs
    subst hs
    obtain ⟨cookie, rest, hr⟩ := readCookie_ok_iff.2 hhello
    exact hok cookie rest hr
  | welcomed hpc => simp [Graceful, hpc]
  | unwelcomed hpc => simp [Graceful, hpc, fail]
  | @handed _ c k hpc hv =>
    obtain ⟨j, t, hj, ht, hr, hq, -⟩ := handOver_eq hv
    have hk := (hw.target k (by simp [hpc, AcceptPc.target])).1
    rw [hw.same, hk] at hj
    obtain rfl := Option.some.inj hj
    simp only [Graceful, hpc]
    exact iff_of_true (by simp) ⟨t, ht, hr, hq⟩
  | @refused c k hpc hv =>
    have hk := (hw.target k (by simp [hpc, AcceptPc.target])).1
    simp only [Graceful, hpc]
    apply iff_of_false (fun h => h rfl)
    rintro ⟨t, ht, hrq⟩
    have hsome := (handOver_isSome (c := c) (hw.same.trans hk) ht).2 hrq
    rw [hv] at hsome
    cases hsome
  | test hpc => simpa [Graceful] using hpc
  | accept hpc | acceptIdle hpc | guarded hpc | busy hpc | denied hpc | deniedHeld hpc => simp [Graceful, hpc]
  | named hpc | unnamed hpc | invited hpc | uninvited hpc => simp [Graceful, hpc]
  | created hpc | uncreated hpc | timedOut hpc => simp [Graceful, hpc]

/-- Every step taken for a connection brings the loop closer to the next one. -/
theorem left_step (h : Step decode s e u) (he : NetEvent.ofHandling e = true) :
    u.pc.left < s.pc.left := by
  cases h with
  | accept | acceptIdle | test => cases he
  | _ => simp_all [AcceptPc.left, fail]

/-- While a closed connection is handled the loop has a step to take. -/
theorem handling_enabled (hw : Wired s) {c : Nat} {socket : Source} (hc : s.pc.conn = some c)
    (hs : s.conns[c]? = some socket) (hcl : socket.closed = true) :
    ∃ e, NetEvent.ofHandling e = true ∧ (s.step decode e).isSome = true := by
  have hread := readCookie_settles decode socket
  cases hpc : s.pc with
  | accepting | returned => simp [hpc, AcceptPc.conn] at hc
  | locking c' k =>
    obtain ⟨-, hk⟩ := hw.target k (by simp [hpc, AcceptPc.target])
    have ht := List.getElem?_eq_getElem hk
    have hl : s.tests[k].locked = false := by
      by_contra hl
      have hheld := (hw.locks k _ ht).1 (by simpa using hl)
      simp [hpc, AcceptPc.held] at hheld
    refine ⟨.lock, rfl, ?_⟩
    simp only [step, hpc, ht, hl]
    cases s.tests[k].state <;> simp
  | helloData c' k cookie =>
    simp only [hpc, AcceptPc.conn, Option.some.injEq] at hc
    subst hc
    refine ⟨.read, rfl, ?_⟩
    simp only [step, hpc, hs]
    split
    · split <;> rfl
    · rename_i h
      simp [h, Read.Settles, hcl] at hread
    · rfl
  | hello c' =>
    simp only [hpc, AcceptPc.conn, Option.some.injEq] at hc
    subst hc
    refine ⟨.read, rfl, ?_⟩
    simp only [step, hpc, hs]
    split
    · rfl
    · rfl
    · rename_i h
      simp [h, Read.Settles, hcl] at hread
    · rfl
  | welcomeData c' k => exact ⟨.write true, rfl, by simp [step, hpc]⟩
  | denying c' held => exact ⟨.write true, rfl, by simp [step, hpc]⟩
  | welcome c' cookie socket => exact ⟨.write true, rfl, by simp [step, hpc]⟩
  | params c' cookie socket => exact ⟨.timeout, rfl, by simp [step, hpc]⟩
  | handing c' k =>
    refine ⟨.send, rfl, ?_⟩
    simp only [step, hpc]
    split <;> rfl

/-- A process that is over takes no step. -/
theorem returned_stuck (h : s.pc = .returned) : s.step decode e = none := by
  cases e <;> simp [step, h]

/-- `run_server` has not returned if and only if every step was graceful. While
it has not, a connection that its peer closes is done with after a few steps of
the loop: there is one to take, and each brings the loop closer to `accept`. -/
theorem connection_handled (h : Run (step decode) Any init es s) :
    (s.pc ≠ .returned ↔ Run (step decode) (Graceful decode) init es s) ∧
    ∀ c socket, s.pc.conn = some c → s.conns[c]? = some socket → socket.closed = true →
      (∃ e, NetEvent.ofHandling e = true ∧ (s.step decode e).isSome = true) ∧
      ∀ e u, NetEvent.ofHandling e = true → s.step decode e = some u → u.pc.left < s.pc.left := by
  refine ⟨?_, fun c socket hc hs hcl =>
    ⟨handling_enabled (wired_reach h.reach) hc hs hcl, fun e u he hu => left_step (step_cases hu) he⟩⟩
  induction h with
  | nil => exact iff_of_true (by simp [init]) .nil
  | @snoc es t u e h _ hs ih =>
    have hg := graceful_step (wired_reach h.reach) (step_cases hs)
    constructor
    · intro hu
      have ht : t.pc ≠ .returned := fun ht => by simp [returned_stuck ht] at hs
      exact .snoc (ih.1 ht) (hg.1 hu) hs
    · intro hrun
      obtain ⟨t', ht', hgr, hs'⟩ := hrun.last
      exact (graceful_step (wired_reach ht'.reach) (step_cases hs')).2 hgr

/-- A connection with another cookie is denied access. -/
theorem connection_handled_foreign : ∃ es s, Run (step startDecode) Any init es s ∧ s.pc = .denying 1 (some 0) ∧
    (s.pc ≠ .returned ↔ Run (step startDecode) (Graceful startDecode) init es s) ∧
    ∀ c socket, s.pc.conn = some c → s.conns[c]? = some socket → socket.closed = true →
      (∃ e, NetEvent.ofHandling e = true ∧ (s.step startDecode e).isSome = true) ∧
      ∀ e u, NetEvent.ofHandling e = true → s.step startDecode e = some u → u.pc.left < s.pc.left := by
  obtain ⟨s, ⟨es, hrun⟩, hs⟩ := exists_of_exec (step startDecode) init
    (startRun ++ [.accept (peer [.clientMessage (.hello "x")] true), .lock, .read])
    (fun s => s.pc = .denying 1 (some 0)) (by decide +kernel)
  exact ⟨es, s, hrun, by simpa using hs, connection_handled hrun⟩

/-- While streams are expected, a connection that closes before it sent
anything ends the server. -/
theorem connection_ends_server : ∃ s, Reach (step startDecode) init s ∧ s.pc = .accepting ∧
    ∃ u, exec (step startDecode) s [.accept (peer [] true), .lock, .read] = some u ∧ u.pc = .returned ∧
      ∀ e, u.step startDecode e = none := by
  obtain ⟨s, hr, hs⟩ := exists_of_exec (step startDecode) init startRun
    (fun s => s.pc = .accepting ∧
      (exec (step startDecode) s [.accept (peer [] true), .lock, .read]).any (fun u => u.pc = .returned))
    (by decide +kernel)
  simp only [Option.any_eq_true, decide_eq_true_eq] at hs
  obtain ⟨hpc, u, hu, hret⟩ := hs
  exact ⟨s, hr, hpc, u, hu, hret, fun e => returned_stuck hret⟩

end Server

end Netperf
