import Netperf.Server
import Netperf.Json
import Netperf.Notices
import Netperf.Lib.Lists
/-!
# What the accept loop keeps

The weak reference and the channel always belong to the same test, the only one
that may be running. Exactly the test whose guard the loop holds is locked, and
its state stands still meanwhile.
-/

namespace Netperf

open Frames Runs Lists

namespace AcceptPc

/-- The connection at hand. -/
def conn : AcceptPc → Option Nat
  | .locking c _ | .helloData c _ _ | .welcomeData c _ | .handing c _ | .denying c _ => some c
  | .hello c | .welcome c _ _ | .params c _ _ => some c
  | _ => none

/-- The test a data connection is for. -/
def target : AcceptPc → Option Nat
  | .locking _ k | .helloData _ k _ | .welcomeData _ k | .handing _ k => some k
  | _ => none

/-- The test whose guard is held. -/
def held : AcceptPc → Option Nat
  | .helloData _ k _ | .welcomeData _ k | .handing _ k => some k
  | .denying _ held => held
  | _ => none

/-- A new test is being negotiated. -/
def negotiating : AcceptPc → Bool
  | .hello _ | .welcome _ _ _ | .params _ _ _ => true
  | _ => false

end AcceptPc

/-! ## What a step leaves alone -/

namespace ServerTest
variable {t u : ServerTest} {e : ServerEvent}

theorem locked_of_step (h : Step t e u) (he : e.ofAcceptLoop = false) : u.locked = t.locked := by
  cases h with
  | guard | unguard | offer => cases he
  | _ => simp

/-- A held guard keeps the controller from storing a state. -/
theorem state_of_step (h : Step t e u) (hl : t.locked = true) : u.state = t.state := by
  cases h with
  | store h => simp [hl] at h
  | worker hw => simp [workerStep_test hw]
  | _ => simp

end ServerTest

namespace Server
variable {decode : List UInt8 → Option ClientEnvelope} {s u : Server} {e : NetEvent}

/-- How the loop's position, its two variables and the tests go together. -/
structure Wired (s : Server) : Prop where
  same : s.channel = s.inFlight
  alive : ∀ (i : Nat) (t : ServerTest), s.tests[i]? = some t → t.returned = false → s.inFlight = some i
  target : ∀ k, s.pc.target = some k → s.inFlight = some k ∧ k < s.tests.length
  locks : ∀ (k : Nat) (t : ServerTest), s.tests[k]? = some t → (t.locked = true ↔ s.pc.held = some k)
  idle : s.pc.negotiating = true → ∀ (i : Nat) (t : ServerTest), s.tests[i]? = some t → t.returned = true
  checking : ∀ c k cookie, s.pc = .helloData c k cookie →
    ∃ t : ServerTest, s.tests[k]? = some t ∧ t.state = .createStreams cookie
  conn : ∀ c, s.pc.conn = some c → c + 1 = s.conns.length

theorem wired_init : Wired init := by
  refine ⟨rfl, ?_, ?_, ?_, ?_, ?_, ?_⟩ <;> simp [init, AcceptPc.target, AcceptPc.negotiating, AcceptPc.conn]

theorem Wired.move (hw : Wired s) {pc : AcceptPc} (answers : List (Nat × ServerEnvelope))
    (ht : ∀ k, pc.target = some k → s.pc.target = some k) (hh : pc.held = s.pc.held)
    (hn : pc.negotiating = true → s.pc.negotiating = true) (hc : ∀ c k cookie, pc ≠ .helloData c k cookie)
    (hco : ∀ c, pc.conn = some c → s.pc.conn = some c) : Wired { s with pc := pc, answers := answers } :=
  ⟨hw.same, hw.alive, fun k hk => hw.target k (ht k hk), fun k t hk => by rw [hw.locks k t hk]; simp [hh],
    fun h => hw.idle (hn h), fun c k cookie h => absurd h (hc c k cookie), fun c h => hw.conn c (hco c h)⟩

theorem Wired.setTest (hw : Wired s) {k : Nat} {t u : ServerTest} (ht : s.tests[k]? = some t)
    (hl : u.locked = t.locked) (hr : u.returned = false → t.returned = false)
    (hs : t.locked = true → u.state = t.state) : Wired { s with tests := s.tests.set k u } := by
  have hlt := lt_of_getElem? ht
  refine ⟨hw.same, ?_, fun i hi => by simpa using hw.target i hi, ?_, ?_, ?_, hw.conn⟩
  · intro i v hi hv
    rcases (getElem?_set_iff hlt).1 hi with ⟨rfl, rfl⟩ | ⟨-, hi⟩
    · exact hw.alive i t ht (hr hv)
    · exact hw.alive i v hi hv
  · intro i v hi
    rcases (getElem?_set_iff hlt).1 hi with ⟨rfl, rfl⟩ | ⟨-, hi⟩
    · rw [hl]
      exact hw.locks i t ht
    · exact hw.locks i v hi
  · intro hn i v hi
    rcases (getElem?_set_iff hlt).1 hi with ⟨rfl, rfl⟩ | ⟨-, hi⟩
    · by_contra hv
      have ht' := hw.idle hn i t ht
      rw [hr (by simpa using hv)] at ht'
      cases ht'
    · exact hw.idle hn i v hi
  · intro c i cookie hpc
    obtain ⟨v, hv, hstate⟩ := hw.checking c i cookie hpc
    by_cases he : i = k
    · subst he
      rw [ht, Option.some.injEq] at hv
      subst hv
      refine ⟨u, (getElem?_set_iff hlt).2 (.inl ⟨rfl, rfl⟩), ?_⟩
      have hheld : s.pc.held = some i := by
        have hpc : s.pc = .helloData c i cookie := hpc
        rw [hpc]
        rfl
      rw [hs ((hw.locks i t ht).2 hheld), hstate]
    · exact ⟨v, (getElem?_set_iff hlt).2 (.inr ⟨he, hv⟩), hstate⟩

/-- The guard is dropped and the connection is done with. -/
theorem Wired.release (hw : Wired s) {k : Nat} (hh : s.pc.held = some k) {pc : AcceptPc}
    (hpc : pc = .accepting ∨ pc = .returned) (answers : List (Nat × ServerEnvelope)) :
    Wired { s.release k with pc := pc, answers := answers } := by
  have hnone : pc.target = none ∧ pc.held = none ∧ pc.negotiating = false ∧ pc.conn = none := by
    rcases hpc with rfl | rfl <;> simp [AcceptPc.target, AcceptPc.held, AcceptPc.negotiating, AcceptPc.conn]
  obtain ⟨h1, h2, h3, h4⟩ := hnone
  refine ⟨hw.same, ?_, by simp [h1], ?_, by simp [h3], ?_, by simp [h4]⟩
  · intro i v hi hv
    rcases getElem?_modify_iff.1 hi with ⟨-, t, ht, rfl⟩ | ⟨-, hi⟩
    · exact hw.alive i t ht hv
    · exact hw.alive i v hi hv
  · intro i v hi
    simp only [h2, reduceCtorEq, iff_false]
    rcases getElem?_modify_iff.1 hi with ⟨-, t, -, rfl⟩ | ⟨hne, hi⟩
    · simp
    · rw [hw.locks i v hi, hh]
      simpa using Ne.symm hne
  · rintro c i cookie rfl
    simp [AcceptPc.held] at h2

theorem handOver_eq {c : Nat} {v : Server} (h : s.handOver c = some v) :
    ∃ j t, s.channel = some j ∧ s.tests[j]? = some t ∧ t.returned = false ∧ t.queue.length < internalProtBuffer ∧
      v = { s with tests := s.tests.set j { t with queue := t.queue ++ [.createStream c] } } := by
  unfold handOver at h
  split at h
  · cases h
  rename_i j hj
  split at h
  · cases h
  rename_i t ht
  split at h
  · cases h
  rename_i hr
  simp only [TestController.trySend, Option.map_eq_some_iff, Option.ite_none_right_eq_some, Option.some.injEq] at h
  obtain ⟨d, ⟨hq, rfl⟩, rfl⟩ := h
  exact ⟨j, t, hj, ht, by simpa using hr, hq, rfl⟩

theorem upgrade_eq_some {k : Nat} (h : s.upgrade = some k) : s.inFlight = some k ∧ s.live k = true := by
  simpa [upgrade, Option.filter_eq_some_iff] using h

/-- When nothing is in flight every test has returned. -/
theorem Wired.all_returned (hw : Wired s) (h : s.upgrade = none) {i : Nat} {t : ServerTest} (ht : s.tests[i]? = some t) :
    t.returned = true := by
  by_contra hr
  have hr : t.returned = false := by simpa using hr
  have hi := hw.alive i t ht hr
  simp [upgrade, hi, live, ht, hr] at h

theorem wired_step (h : Step decode s e u) (hw : Wired s) : Wired u := by
  cases h with
  | accept hpc hup =>
    obtain ⟨hin, hlive⟩ := upgrade_eq_some hup
    obtain ⟨t, ht, -⟩ := (Option.any_eq_true _ _).1 hlive
    refine ⟨hw.same, hw.alive, ?_, ?_, by simp [AcceptPc.negotiating], by simp, by simp [AcceptPc.conn]⟩
    · rintro _ ⟨⟩
      exact ⟨hin, lt_of_getElem? ht⟩
    · intro i t hi
      rw [hw.locks i t hi, hpc]
      simp [AcceptPc.held]
  | acceptIdle hpc hup =>
    refine ⟨hw.same, hw.alive, by simp [AcceptPc.target], fun i t hi => ?_, fun _ i t ht => hw.all_returned hup ht,
      by simp, by simp [AcceptPc.conn]⟩
    rw [hw.locks i t hi, hpc]
    simp [AcceptPc.held]
  | @guarded c k t cookie hpc ht hl hs =>
    have hlt := lt_of_getElem? ht
    obtain ⟨hin, -⟩ := hw.target k (by simp [hpc, AcceptPc.target])
    refine ⟨hw.same, ?_, ?_, ?_, by simp [AcceptPc.negotiating], ?_, ?_⟩
    · intro i v hi hv
      rcases (getElem?_set_iff hlt).1 hi with ⟨rfl, rfl⟩ | ⟨-, hi⟩
      · exact hin
      · exact hw.alive i v hi hv
    · rintro _ ⟨⟩
      exact ⟨hin, by simpa using hlt⟩
    · intro i v hi
      rcases (getElem?_set_iff hlt).1 hi with ⟨rfl, rfl⟩ | ⟨hne, hi⟩
      · simp [AcceptPc.held]
      · rw [hw.locks i v hi, hpc]
        simpa [AcceptPc.held] using Ne.symm hne
    · rintro _ _ _ ⟨⟩
      exact ⟨_, (getElem?_set_iff hlt).2 (.inl ⟨rfl, rfl⟩), hs⟩
    · rintro _ ⟨⟩
      exact hw.conn c (by simp [hpc, AcceptPc.conn])
  | malformed hpc | unwelcomed hpc | refused hpc => exact hw.release (by simp [hpc, AcceptPc.held]) (.inr rfl) _
  | deniedHeld hpc => exact hw.release (by simp [hpc, AcceptPc.held]) (.inl rfl) _
  | @handed _ c k hpc hv =>
    obtain ⟨j, t, hj, ht, hr, hq, rfl⟩ := handOver_eq hv
    have hset : Wired { s with tests := s.tests.set j { t with queue := t.queue ++ [.createStream c] } } :=
      hw.setTest ht rfl (fun h => h) (fun _ => rfl)
    exact hset.release (by simp [hpc, AcceptPc.held]) (.inl rfl) _
  | created hpc =>
    refine ⟨rfl, ?_, by simp [AcceptPc.target], ?_, by simp [AcceptPc.negotiating], by simp, by simp [AcceptPc.conn]⟩
    · intro i t hi hr
      rcases getElem?_concat_iff.1 hi with hi | ⟨rfl, -⟩
      · rw [hw.idle (by simp [hpc, AcceptPc.negotiating]) i t hi] at hr
        cases hr
      · rfl
    · intro i t hi
      rcases getElem?_concat_iff.1 hi with hi | ⟨rfl, rfl⟩
      · rw [hw.locks i t hi, hpc]
        simp [AcceptPc.held]
      · simp [ServerTest.new, AcceptPc.held]
  | test hpc he ht hs =>
    have hstep := ServerTest.step_cases hs
    exact hw.setTest ht (ServerTest.locked_of_step hstep he) (fun h => ServerTest.returned_of_step hstep h)
      (ServerTest.state_of_step hstep)
  | _ =>
    refine hw.move _ ?_ ?_ ?_ ?_ ?_ <;>
      simp_all [AcceptPc.target, AcceptPc.held, AcceptPc.negotiating, AcceptPc.conn]

theorem wired_reach (h : Reach (step decode) init s) : Wired s :=
  h.inv Wired wired_init (fun _ _ _ hi hs => wired_step (step_cases hs) hi)

/-! ## The tests of a server -/

theorem release_step (hw : Wired s) {k : Nat} (hh : s.pc.held = some k) {i : Nat} {t' : ServerTest}
    (ht' : (s.release k).tests[i]? = some t') :
    ∃ t, s.tests[i]? = some t ∧ (t' = t ∨ t.step .unguard = some t') := by
  rcases getElem?_modify_iff.1 ht' with ⟨rfl, t, ht, rfl⟩ | ⟨-, ht⟩
  · exact ⟨t, ht, .inr (by simp [ServerTest.step, (hw.locks _ t ht).2 hh])⟩
  · exact ⟨t', ht, .inl rfl⟩

/-- The step of test `k` that event `e` of the server is: the test's own, or one
of the accept loop, which hands over the connection at hand. -/
def StepsTest (s u : Server) (e : NetEvent) (k : Nat) (ev : ServerEvent) : Prop :=
  e = .test k ev ∨ ev = .guard ∨ ev = .unguard ∨ ∃ c, ev = .offer c ∧ s.pc = .handing c k ∧ u.pc = .accepting

theorem StepsTest.offer {k c : Nat} (h : StepsTest s u e k (.offer c)) (he : ∀ k ev, e = .test k ev → ev.ofAcceptLoop = false) :
    s.pc = .handing c k ∧ u.pc = .accepting := by
  rcases h with h | h | h | ⟨c', hc, h⟩
  · cases he k _ h
  · cases h
  · cases h
  · cases hc
    exact h

theorem ofAcceptLoop_of_step (h : Step decode s e u) : ∀ k ev, e = .test k ev → ev.ofAcceptLoop = false := by
  rintro k ev rfl
  cases h
  assumption

/-- Whatever happens on the server, each test takes at most one step of its own,
or is new. -/
theorem tests_step (h : Step decode s e u) (hw : Wired s) {k : Nat} {t' : ServerTest} (ht' : u.tests[k]? = some t') :
    (∃ t, s.tests[k]? = some t ∧ (t' = t ∨ ∃ ev, t.step ev = some t' ∧ StepsTest s u e k ev)) ∨
      (s.tests[k]? = none ∧ ∃ cookie params, t' = ServerTest.new cookie params) := by
  cases h with
  | @guarded c j t cookie hpc ht hl hs =>
    rcases (getElem?_set_iff (lt_of_getElem? ht)).1 ht' with ⟨rfl, rfl⟩ | ⟨-, ht'⟩
    · exact .inl ⟨t, ht, .inr ⟨.guard, by simp [ServerTest.step, hl, hs], .inr (.inl rfl)⟩⟩
    · exact .inl ⟨t', ht', .inl rfl⟩
  | malformed hpc | unwelcomed hpc | refused hpc | deniedHeld hpc =>
    obtain ⟨t, ht, h⟩ := release_step hw (by simp [hpc, AcceptPc.held]) ht'
    exact .inl ⟨t, ht, h.imp_right (fun h => ⟨.unguard, h, .inr (.inr (.inl rfl))⟩)⟩
  | @handed _ c j hpc hv =>
    obtain ⟨i, t, hi, ht, hr, hq, rfl⟩ := handOver_eq hv
    -- the channel is the one of the test whose guard is held
    have hj : j = i := by
      have hin := (hw.target j (by simp [hpc, AcceptPc.target])).1
      rw [hw.same, hin] at hi
      exact Option.some.inj hi
    subst hj
    have hl := (hw.locks j t ht).2 (by simp [hpc, AcceptPc.held])
    rcases getElem?_modify_iff.1 ht' with ⟨rfl, v, hv, rfl⟩ | ⟨hne, hv⟩
    · rcases (getElem?_set_iff (lt_of_getElem? ht)).1 hv with ⟨-, rfl⟩ | ⟨hne, -⟩
      · refine .inl ⟨t, ht, .inr ⟨.offer c, ?_, .inr (.inr (.inr ⟨c, rfl, hpc, rfl⟩))⟩⟩
        simp [ServerTest.step, hl, hr, TestController.trySend, hq]
      · exact absurd rfl hne
    · rcases (getElem?_set_iff (lt_of_getElem? ht)).1 hv with ⟨rfl, -⟩ | ⟨-, hv⟩
      · exact absurd rfl hne
      · exact .inl ⟨t', hv, .inl rfl⟩
  | created =>
    rcases getElem?_concat_iff.1 ht' with ht' | ⟨rfl, rfl⟩
    · exact .inl ⟨t', ht', .inl rfl⟩
    · exact .inr ⟨by simp, _, _, rfl⟩
  | test _ _ ht hs =>
    rcases (getElem?_set_iff (lt_of_getElem? ht)).1 ht' with ⟨rfl, rfl⟩ | ⟨-, ht'⟩
    · exact .inl ⟨_, ht, .inr ⟨_, hs, .inl rfl⟩⟩
    · exact .inl ⟨t', ht', .inl rfl⟩
  | _ => exact .inl ⟨t', ht', .inl rfl⟩

theorem tests_length (h : Step decode s e u) : s.tests.length ≤ u.tests.length := by
  cases h with
  | handed _ hv =>
    obtain ⟨-, -, -, -, -, -, rfl⟩ := handOver_eq hv
    simp [release]
  | _ => simp [fail, release]

/-- Every test on a server behaves as a test by itself. -/
theorem test_reach (h : Reach (step decode) init s) :
    ∀ (k : Nat) (t : ServerTest), s.tests[k]? = some t →
      ∃ cookie params, Reach ServerTest.step (ServerTest.new cookie params) t := by
  obtain ⟨es, h⟩ := h
  induction h with
  | nil => simp [init]
  | snoc h _ hs ih =>
    intro k t' ht'
    rcases tests_step (step_cases hs) (wired_reach h.reach) ht' with ⟨t, ht, rfl | ⟨ev, hev, -⟩⟩ | ⟨-, cookie, params, rfl⟩
    · exact ih k _ ht
    · obtain ⟨cookie, params, hr⟩ := ih k t ht
      exact ⟨cookie, params, hr.next hev⟩
    · exact ⟨cookie, params, .refl⟩

/-! ## A test in flight -/

/-- A peer that sends these envelopes at once, and then closes or is silent. -/
def peer (es : List ClientEnvelope) (closed : Bool) : Source :=
  sourceOf (es.flatMap (fun e => frame e.encode)) closed

def startEnvelopes : List ClientEnvelope :=
  [.clientMessage (.hello "c"), .clientMessage (.sendParameters (uploadParams 1))]

def startDecode : List UInt8 → Option ClientEnvelope :=
  decodeAmong ClientEnvelope.encode (startEnvelopes ++ [.clientMessage (.hello "x")])

/-- A client asks for an upload test with one stream, and the server announces
`CreateStreams`. -/
def startRun : List NetEvent :=
  [.accept (peer startEnvelopes false), .read, .write true, .read] ++ ServerTest.announceRun.map (.test 0)

end Server

end Netperf
