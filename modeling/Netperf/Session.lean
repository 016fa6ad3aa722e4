import Netperf.ServerLoop
import Netperf.Pair
/-!
# A client's session

A client with its test on a server that third parties connect to at any time.
The client makes its data connections one after another: it connects, sends its
`Hello`, and reads the answer of the accept loop, before it goes on. Its control
connection works as in a `Pair`.
-/

namespace Netperf

open Frames Runs Lists

/-- The data connection that the client is making: none, one that the server is
still to accept, or connection `c` of the server. -/
inductive Dial where
  | none
  | pending (socket : Source)
  | accepted (c : Nat)
deriving DecidableEq

structure Session where
  server : Server
  client : ClientTest
  /-- The number of the client's test on the server. -/
  test : Nat
  dial : Dial

inductive SessionEvent where
  /-- A step of the server; the connections it accepts here are third parties'. -/
  | server (e : NetEvent)
  | client (e : ClientEvent)
  /-- `TcpStream::connect` in `connect_data_stream`, on a connection that will
  carry these bytes. -/
  | dial (socket : Source)
  /-- The server accepts the client's data connection. -/
  | arrive

namespace Session

/-- A session begins when `create_test` has read the client's parameters. -/
def new (server : Server) (test : Nat) (cookie : String) (params : TestParameters) : Session :=
  { server, client := ClientTest.new cookie params, test, dial := .none }

/-- What the control connection of the session can deliver. -/
def delivers (s : Session) (e : PairEvent) : Bool :=
  (s.server.tests[s.test]?).any (fun t => (Pair.mk t s.client).delivers e)

/-- The server has welcomed the client's data connection `c`. -/
def welcomed (s : Session) (c : Nat) : Bool :=
  s.dial = .accepted c ∧ (c, .serverMessage .welcome) ∈ s.server.answers

/-- The server has denied the client's data connection. -/
def denied (s : Session) : Bool :=
  match s.dial with
  | .accepted c => (c, accessDenied) ∈ s.server.answers
  | _ => false

def step (decode : List UInt8 → Option ClientEnvelope) (s : Session) : SessionEvent → Option Session
  | .server e =>
    let deliverable : Bool := match e with
      | .test k e => k ≠ s.test ∨ s.delivers (.server e)
      | _ => true
    if deliverable then (s.server.step decode e).map (fun u => { s with server := u }) else none
  | .client (.connect (some c)) =>
    if s.welcomed c then
      (s.client.step (.connect (some c))).map (fun t => { s with client := t, dial := .none })
    else none
  | .client e =>
    if s.delivers (.client e) then (s.client.step e).map (fun t => { s with client := t }) else none
  | .dial socket =>
    if s.client.pc = .connecting ∧ s.dial = .none then some { s with dial := .pending socket } else none
  | .arrive =>
    match s.dial with
    | .pending socket =>
      (s.server.step decode (.accept socket)).map
        (fun u => { s with server := u, dial := .accepted s.server.conns.length })
    | _ => none

/-- The steps of a session: one of the server, one of the client, or one of the
data connection between them. -/
inductive Step (decode : List UInt8 → Option ClientEnvelope) : Session → SessionEvent → Session → Prop
  | server {s e u} : (∀ ev, e = .test s.test ev → s.delivers (.server ev) = true) → s.server.step decode e = some u →
      Step decode s (.server e) { s with server := u }
  | client {s e t} : (∀ c, e ≠ .connect (some c)) → s.delivers (.client e) = true → s.client.step e = some t →
      Step decode s (.client e) { s with client := t }
  | connected {s c t} : s.dial = .accepted c → (c, .serverMessage .welcome) ∈ s.server.answers →
      s.client.step (.connect (some c)) = some t →
      Step decode s (.client (.connect (some c))) { s with client := t, dial := .none }
  | dial {s socket} : s.client.pc = .connecting → s.dial = .none →
      Step decode s (.dial socket) { s with dial := .pending socket }
  | arrive {s socket u} : s.dial = .pending socket → s.server.step decode (.accept socket) = some u →
      Step decode s .arrive { s with server := u, dial := .accepted s.server.conns.length }

variable {decode : List UInt8 → Option ClientEnvelope} {s u : Session} {e : SessionEvent}

theorem client_cases {ev : ClientEvent} (hne : ∀ c, ev ≠ .connect (some c))
    (h : (if s.delivers (.client ev) then (s.client.step ev).map (fun t => { s with client := t }) else none) = some u) :
    Step decode s (.client ev) u := by
  simp only [Option.ite_none_right_eq_some, Option.map_eq_some_iff] at h
  obtain ⟨hd, t, ht, rfl⟩ := h
  exact .client hne hd ht

theorem step_cases (h : s.step decode e = some u) : Step decode s e u := by
  cases e with
  | server e =>
    simp only [step, Option.ite_none_right_eq_some, Option.map_eq_some_iff] at h
    obtain ⟨hd, v, hv, rfl⟩ := h
    refine .server ?_ hv
    rintro ev rfl
    simpa using hd
  | client e =>
    cases e with
    | connect c =>
      cases c with
      | none => exact client_cases (by simp) h
      | some c =>
        simp only [step, welcomed, Option.ite_none_right_eq_some, Option.map_eq_some_iff, decide_eq_true_eq] at h
        obtain ⟨⟨hd, hw⟩, t, ht, rfl⟩ := h
        exact .connected hd hw ht
    | _ => exact client_cases (by simp) h
  | dial socket =>
    simp only [step, Option.ite_none_right_eq_some, Option.some.injEq] at h
    obtain ⟨⟨hpc, hd⟩, rfl⟩ := h
    exact .dial hpc hd
  | arrive =>
    simp only [step] at h
    split at h
    · rename_i socket hd
      obtain ⟨v, hv, rfl⟩ := Option.map_eq_some_iff.1 h
      exact .arrive hd hv
    · cases h

/-! ## The control connection -/

/-- The client's test keeps its place, and takes at most one step. -/
theorem test_step {v w : Server} {ev : NetEvent} (h : Server.Step decode v ev w) (hw : v.Wired) {k : Nat}
    {t : ServerTest} (ht : v.tests[k]? = some t) :
    ∃ t', w.tests[k]? = some t' ∧ (t' = t ∨ ∃ te, t.step te = some t' ∧ Server.StepsTest v w ev k te) := by
  have hlen := Server.tests_length h
  have hlt : k < w.tests.length := (lt_of_getElem? ht).trans_le hlen
  obtain ⟨t₀, ht₀, hcases⟩ | ⟨hnone, -⟩ := Server.tests_step h hw (List.getElem?_eq_getElem hlt)
  · rw [ht, Option.some.injEq] at ht₀
    subst ht₀
    exact ⟨_, List.getElem?_eq_getElem hlt, hcases⟩
  · rw [ht] at hnone
    cases hnone

theorem delivers_eq {t : ServerTest} (ht : s.server.tests[s.test]? = some t) (e : PairEvent) :
    s.delivers e = (Pair.mk t s.client).delivers e := by simp [delivers, ht]

/-- A step of the server is one of the client's controllers, or leaves them. -/
theorem pair_server_step {v : Server} {ev : NetEvent} (h : s.server.step decode ev = some v) (hw : s.server.Wired)
    {t : ServerTest} (ht : s.server.tests[s.test]? = some t)
    (hd : ∀ te, ev = .test s.test te → s.delivers (.server te) = true) :
    ∃ t', v.tests[s.test]? = some t' ∧ (t' = t ∨ ∃ pe, (Pair.mk t s.client).step pe = some ⟨t', s.client⟩) := by
  obtain ⟨t', ht', rfl | ⟨te, hte, hst⟩⟩ := test_step (Server.step_cases h) hw ht
  · exact ⟨t', ht', .inl rfl⟩
  refine ⟨t', ht', .inr ⟨.server te, ?_⟩⟩
  have hdel : (Pair.mk t s.client).delivers (.server te) = true := by
    rcases hst with he | rfl | rfl | ⟨c, rfl, -⟩
    · rw [← delivers_eq ht]
      exact hd te he
    · rfl
    · rfl
    · rfl
  simp [Pair.step, hdel, hte]

/-- A step of a session is a step of the two controllers, or leaves them. -/
theorem pair_step (h : Step decode s e u) (hw : s.server.Wired) {t : ServerTest}
    (ht : s.server.tests[s.test]? = some t) : u.test = s.test ∧ ∃ t', u.server.tests[s.test]? = some t' ∧
      ((t' = t ∧ u.client = s.client) ∨ ∃ pe, (Pair.mk t s.client).step pe = some ⟨t', u.client⟩) := by
  cases h with
  | server hd hs =>
    obtain ⟨t', ht', hp⟩ := pair_server_step hs hw ht hd
    exact ⟨rfl, t', ht', hp.imp_left (fun h => ⟨h, rfl⟩)⟩
  | @client ev _ hne hd hs =>
    refine ⟨rfl, t, ht, .inr ⟨.client ev, ?_⟩⟩
    rw [delivers_eq ht] at hd
    simp [Pair.step, hd, hs]
  | @connected c _ _ _ hs =>
    exact ⟨rfl, t, ht, .inr ⟨.client (.connect (some c)), by simp [Pair.step, Pair.delivers, hs]⟩⟩
  | dial => exact ⟨rfl, t, ht, .inl ⟨rfl, rfl⟩⟩
  | arrive _ hs =>
    obtain ⟨t', ht', hp⟩ := pair_server_step hs hw ht (by simp)
    exact ⟨rfl, t', ht', hp.imp_left (fun h => ⟨h, rfl⟩)⟩

end Session

end Netperf
