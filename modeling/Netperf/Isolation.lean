import Netperf.ServerLoop
import Netperf.ServerPhases
import Netperf.Registration
/-!
# Isolation of tests

One test at a time is live, and its streams are connections that named its
cookie while it was waiting for streams. The check reads the weak reference and
the hand-over uses the channel; both belong to the test whose guard is held in
between.
-/

namespace Netperf

open Frames Runs

/-- The connection an event hands to a test. -/
def ServerEvent.offered : ServerEvent → List Nat
  | .offer c => [c]
  | _ => []

namespace ServerTest
variable {t u : ServerTest} {e : ServerEvent}

theorem cookie_of_step (h : Step t e u) : u.cookie = t.cookie := congrArg Prod.fst (config_of_step h)

/-- The connections a test was ever given: those of its workers, the finished
ones included, and those in its channel. -/
def connections (t : ServerTest) : List Nat :=
  t.workers.map Worker.stream ++ t.queue.filterMap (fun m => match m with
    | .createStream c => some c
    | .streamTerminated _ => none)

theorem workers_le_connections (t : ServerTest) : t.workers.length ≤ t.connections.length := by
  simp [connections]

/-- A test keeps its connections in the order in which they were handed over. -/
theorem connections_step (h : Step t e u) : u.connections = t.connections ++ e.offered := by
  cases h with
  | startLoad | finish => simp [connections, TestController.broadcast_streams, ServerEvent.offered]
  | accept _ hq =>
    simp [connections, hq, acceptStream_toTestController, TestController.createAndRegisterStreamWorker,
      ServerEvent.offered]
  | terminated _ hq | unknown _ hq => simp [connections, hq, ServerEvent.offered]
  | worker hw =>
    obtain ⟨w, w', hg, hs, hws, -, hq⟩ := TestController.workerStep_spec hw
    have hstreams : (t.workers.set _ w').map Worker.stream = t.workers.map Worker.stream :=
      TestController.set_map hg (Worker.step_spec hs).2.1
    rcases hq with hq | hq <;> simp [connections, hws, hstreams, hq, ServerEvent.offered]
  | offer => simp [connections, ServerEvent.offered]
  | _ => simp [connections, ServerEvent.offered]

theorem connections_of_step (h : Step t e u) {c : Nat} (hc : c ∈ u.connections) :
    c ∈ t.connections ∨ e = .offer c := by
  rw [connections_step h] at hc
  refine (List.mem_append.1 hc).imp_right (fun hc => ?_)
  cases e with
  | offer => rw [List.mem_singleton.1 hc]
  | _ => cases hc

end ServerTest

/-- Where the loop has a connection that passed the check. -/
def AcceptPc.passed : AcceptPc → Option (Nat × Nat)
  | .welcomeData c k | .handing c k => some (c, k)
  | _ => none

namespace Server
variable {decode : List UInt8 → Option ClientEnvelope} {s u : Server} {e : NetEvent} {es : List NetEvent}

/-- Among the events is the reading of a `Hello` with this cookie on connection
`c`, at a moment when the stored state of test `k`, which has this cookie, was
`CreateStreams` and could not change. -/
def Checked (decode : List UInt8 → Option ClientEnvelope) (es : List NetEvent) (c k : Nat) (cookie : String) : Prop :=
  ∃ pre s, (pre ++ [.read]) <+: es ∧ Run (step decode) Any init pre s ∧ s.pc = .helloData c k cookie ∧
    (∃ t, s.tests[k]? = some t ∧ t.cookie = cookie ∧ t.state = .createStreams cookie ∧ t.locked = true) ∧
    ∃ socket rest, s.conns[c]? = some socket ∧ readCookie decode socket = .ok cookie rest

theorem Checked.snoc {c k : Nat} {cookie : String} (h : Checked decode es c k cookie) (e : NetEvent) :
    Checked decode (es ++ [e]) c k cookie := by
  obtain ⟨pre, s, hpre, h⟩ := h
  exact ⟨pre, s, hpre.trans (List.prefix_append _ _), h⟩

/-- The connections of tests were checked for them, each for one test, and are
not the one at hand. -/
structure Authentic (decode : List UInt8 → Option ClientEnvelope) (es : List NetEvent) (s : Server) : Prop where
  passed : ∀ (c k : Nat) (t : ServerTest), s.pc.passed = some (c, k) → s.tests[k]? = some t →
    Checked decode es c k t.cookie
  member : ∀ (k : Nat) (t : ServerTest) (c : Nat), s.tests[k]? = some t → c ∈ t.connections →
    Checked decode es c k t.cookie
  placed : ∀ (k : Nat) (t : ServerTest) (c : Nat), s.tests[k]? = some t → c ∈ t.connections →
    c < s.conns.length ∧ s.pc.conn ≠ some c
  apart : ∀ (i j : Nat) (t v : ServerTest) (c : Nat), s.tests[i]? = some t → s.tests[j]? = some v →
    c ∈ t.connections → c ∈ v.connections → i = j

/-- A connection of a test after a step was one before, or is handed over now. -/
theorem connection_origin (h : Step decode s e u) (hw : Wired s) {k : Nat} {t' : ServerTest}
    (ht' : u.tests[k]? = some t') {c : Nat} (hc : c ∈ t'.connections) :
    ∃ t, s.tests[k]? = some t ∧ t'.cookie = t.cookie ∧
      (c ∈ t.connections ∨ (s.pc = .handing c k ∧ u.pc = .accepting)) := by
  rcases tests_step h hw ht' with ⟨t, ht, rfl | ⟨ev, hev, hoff⟩⟩ | ⟨-, cookie, params, rfl⟩
  · exact ⟨t', ht, rfl, .inl hc⟩
  · have hstep := ServerTest.step_cases hev
    refine ⟨t, ht, ServerTest.cookie_of_step hstep, (ServerTest.connections_of_step hstep hc).imp_right ?_⟩
    rintro rfl
    exact hoff.offer (ofAcceptLoop_of_step h)
  · simp [ServerTest.connections, ServerTest.new, TestController.new] at hc

/-- Checking the cookie of the connection at hand is what lets it pass. -/
theorem passed_step (hrun : Run (step decode) Any init es s) (h : Step decode s e u) (hi : Authentic decode es s)
    {c k : Nat} {t' : ServerTest} (hpc : u.pc.passed = some (c, k)) (ht' : u.tests[k]? = some t') :
    Checked decode (es ++ [e]) c k t'.cookie := by
  have hw := wired_reach hrun.reach
  cases h with
  | @matched c' k' cookie socket rest hp hconn hread =>
    obtain ⟨rfl, rfl⟩ : c' = c ∧ k' = k := by simpa [AcceptPc.passed] using hpc
    obtain ⟨t, ht, hstate⟩ := hw.checking _ _ _ hp
    obtain rfl : t' = t := Option.some.inj (ht'.symm.trans ht)
    obtain ⟨ck, params, htest⟩ := test_reach hrun.reach _ _ ht
    have hcookie := (ServerTest.phase_reach htest).cookie hstate
    have hl := (hw.locks _ _ ht).2 (by simp [hp, AcceptPc.held])
    rw [← hcookie]
    exact ⟨es, s, List.prefix_rfl, hrun, hp, ⟨_, ht, hcookie.symm, hstate, hl⟩, _, _, hconn, hread⟩
  | @welcomed c' k' hp =>
    obtain ⟨rfl, rfl⟩ : c' = c ∧ k' = k := by simpa [AcceptPc.passed] using hpc
    exact (hi.passed _ _ _ (by simp [hp, AcceptPc.passed]) ht').snoc _
  | test _ _ ht hs =>
    rcases (Lists.getElem?_set_iff (Lists.lt_of_getElem? ht)).1 ht' with ⟨rfl, rfl⟩ | ⟨-, ht'⟩
    · rw [ServerTest.cookie_of_step (ServerTest.step_cases hs)]
      exact (hi.passed _ _ _ hpc ht).snoc _
    · exact (hi.passed _ _ _ hpc ht').snoc _
  | _ => simp [AcceptPc.passed, fail] at hpc

theorem conn_step (h : Step decode s e u) : s.conns.length ≤ u.conns.length ∧
    (u.pc.conn = none ∨ u.pc.conn = s.pc.conn ∨ u.pc.conn = some s.conns.length) := by
  cases h with
  | @handed _ c k hpc hv =>
    obtain ⟨j, t, -, -, -, -, rfl⟩ := handOver_eq hv
    exact ⟨by simp [release], .inl rfl⟩
  | _ => simp_all [AcceptPc.conn, fail, release]

theorem placed_step (hw : Wired s) (h : Step decode s e u) (hi : Authentic decode es s) {k : Nat} {t' : ServerTest}
    (ht' : u.tests[k]? = some t') {c : Nat} (hc : c ∈ t'.connections) : c < u.conns.length ∧ u.pc.conn ≠ some c := by
  obtain ⟨hle, hconn⟩ := conn_step h
  obtain ⟨t, ht, -, hc | ⟨hs, hu⟩⟩ := connection_origin h hw ht' hc
  · obtain ⟨hlt, hne⟩ := hi.placed k t c ht hc
    refine ⟨by omega, ?_⟩
    rcases hconn with hn | hsame | hnew
    · simp [hn]
    · rwa [hsame]
    · rw [hnew, ne_eq, Option.some.injEq]
      omega
  · have hlen := hw.conn c (by simp [hs, AcceptPc.conn])
    exact ⟨by omega, by simp [hu, AcceptPc.conn]⟩

theorem apart_step (hw : Wired s) (h : Step decode s e u) (hi : Authentic decode es s) {i j : Nat} {t' v' : ServerTest}
    (ht' : u.tests[i]? = some t') (hv' : u.tests[j]? = some v') {c : Nat} (hc : c ∈ t'.connections)
    (hc' : c ∈ v'.connections) : i = j := by
  obtain ⟨t, ht, -, hc | ⟨hs, -⟩⟩ := connection_origin h hw ht' hc
  · obtain ⟨v, hv, -, hc' | ⟨hs, -⟩⟩ := connection_origin h hw hv' hc'
    · exact hi.apart i j t v c ht hv hc hc'
    · -- the connection at hand is in no test yet
      exact absurd (by simp [hs, AcceptPc.conn]) (hi.placed i t c ht hc).2
  · obtain ⟨v, hv, -, hc' | ⟨hs', -⟩⟩ := connection_origin h hw hv' hc'
    · exact absurd (by simp [hs, AcceptPc.conn]) (hi.placed j v c hv hc').2
    · rw [hs, AcceptPc.handing.injEq] at hs'
      exact hs'.2

theorem authentic_run (h : Run (step decode) Any init es s) : Authentic decode es s := by
  induction h with
  | nil => exact ⟨by simp [init], by simp [init], by simp [init], by simp [init]⟩
  | @snoc es s u e h _ hs ih =>
    have hw := wired_reach h.reach
    have hstep := step_cases hs
    refine ⟨fun c k t hpc ht => passed_step h hstep ih hpc ht, fun k t c ht hc => ?_,
      fun k t c ht hc => placed_step hw hstep ih ht hc, fun i j t v c ht hv => apart_step hw hstep ih ht hv⟩
    obtain ⟨v, hv, hcookie, hc | ⟨hpc, -⟩⟩ := connection_origin hstep hw ht hc
    · exact hcookie ▸ (ih.member k v c hv hc).snoc e
    · exact hcookie ▸ (ih.passed c k v (by simp [hpc, AcceptPc.passed]) hv).snoc e

/-- After every run at most one controller is live. Every stream ever registered
in a test came on a connection whose `Hello` carried that test's cookie, checked
while that test's state was `CreateStreams`, and is registered in no other test. -/
theorem tests_isolated (h : Run (step decode) Any init es s) :
    (∀ (i j : Nat) (t v : ServerTest), s.tests[i]? = some t → s.tests[j]? = some v →
      t.returned = false → v.returned = false → i = j) ∧
    (∀ (k : Nat) (t : ServerTest) (w : Worker), s.tests[k]? = some t → w ∈ t.workers →
      Checked decode es w.stream k t.cookie ∧
      ∀ (j : Nat) (v : ServerTest) (w' : Worker), s.tests[j]? = some v → w' ∈ v.workers → w'.stream = w.stream →
        j = k) := by
  have hw := wired_reach h.reach
  have ha := authentic_run h
  have hmem : ∀ {t : ServerTest} {w : Worker}, w ∈ t.workers → w.stream ∈ t.connections :=
    fun hw => List.mem_append_left _ (List.mem_map_of_mem hw)
  refine ⟨?_, fun k t w ht hwt => ⟨ha.member k t _ ht (hmem hwt), ?_⟩⟩
  · intro i j t v ht hv hrt hrv
    have hi := hw.alive i t ht hrt
    rw [hw.alive j v hv hrv] at hi
    exact (Option.some.inj hi).symm
  · intro j v w' hv hwv he
    exact ha.apart j k v t _ hv ht (hmem hwv) (he ▸ hmem hwt)

/-- A server with one stream registered. -/
theorem tests_isolated_one : ∃ es s t w, Run (step startDecode) Any init es s ∧ s.tests[0]? = some t ∧ w ∈ t.workers ∧
    Checked startDecode es w.stream 0 t.cookie := by
  obtain ⟨s, ⟨es, hrun⟩, hs⟩ := exists_of_exec (step startDecode) init
    (startRun ++ [.accept (peer [.clientMessage (.hello "c")] false), .lock, .read, .write true, .send, .test 0 .recv])
    (fun s => (s.tests[0]?).any (fun t => t.workers.length = 1)) (by decide +kernel)
  simp only [Option.any_eq_true, decide_eq_true_eq] at hs
  obtain ⟨t, ht, hlen⟩ := hs
  obtain ⟨w, hw⟩ := List.length_eq_one_iff.1 hlen
  have hmem : w ∈ t.workers := by simp [hw]
  exact ⟨es, s, t, w, hrun, ht, hmem, ((tests_isolated hrun).2 0 t w ht hmem).1⟩

end Server

end Netperf
