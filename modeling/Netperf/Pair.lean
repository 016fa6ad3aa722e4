import Netperf.ServerPhases
import Netperf.ClientTest
import Netperf.Lib.Lists
/-!
# The two controllers of a test

A server's and a client's controller on one control connection, which delivers
every frame whole and in order, or fails. Their tasks take steps in any order.
-/

namespace Netperf

open Maps Runs Lists

/-! ## What the server announces -/

/-- The messages that announced the states up to `s`. -/
inductive Script (cookie : String) : State → List ServerMessage → Prop
  | start : Script cookie .testStart []
  | next {s s' : State} {ms : List ServerMessage} :
      Script cookie s ms → ServerTest.Transit cookie s s' → Script cookie s' (ms ++ [.setState s'])

section
variable {cookie : String} {s : State} {ms : List ServerMessage}

theorem Script.states (h : Script cookie s ms) {m : ServerMessage} (hm : m ∈ ms) : ∃ s', m = .setState s' := by
  induction h with
  | start => cases hm
  | next _ _ ih =>
    rcases List.mem_append.1 hm with hm | hm
    · exact ih hm
    · exact ⟨_, List.mem_singleton.1 hm⟩

theorem Script.no_results (h : Script cookie s ms) (results : TestResults) : .sendResults results ∉ ms := by
  intro hm
  obtain ⟨s', hs'⟩ := h.states hm
  cases hs'

theorem Script.not_displayResults (h : Script cookie s ms) : s ≠ .displayResults := by
  cases h with
  | start => simp
  | next _ ht => exact ht.not_testStart.2

theorem Script.not_ended (h : Script cookie s ms) (hs : s ≠ .exchangeResults) : .setState .exchangeResults ∉ ms := by
  induction h with
  | start => simp
  | next _ ht ih =>
    intro hm
    rcases List.mem_append.1 hm with hm | hm
    · exact ih ht.not_ended hm
    · exact hs (by simpa using (List.mem_singleton.1 hm).symm)

/-- `ExchangeResults` is the last state, and is announced once. -/
theorem Script.ended (h : Script cookie .exchangeResults ms) :
    ∃ pre, .setState .exchangeResults ∉ pre ∧ ms = pre ++ [.setState .exchangeResults] := by
  generalize hs : State.exchangeResults = s at h
  cases h with
  | start => cases hs
  | next h ht =>
    subst hs
    exact ⟨_, h.not_ended ht.not_ended, rfl⟩

end

namespace ServerTest

/-- What the server has written on the control socket: the states up to the
stored one, or up to the one it is about to store, and at last its results. -/
def Said (t : ServerTest) : Prop :=
  match t.pc with
  | .storingState s => Script t.cookie s t.sent
  | .returned (some (results, _)) => ∃ ms, Script t.cookie .exchangeResults ms ∧ t.sent = ms ++ [.sendResults results]
  | .returned none => ∃ s ms, Script t.cookie s ms ∧
      (t.sent = ms ∨ (s = .exchangeResults ∧ ∃ results, t.sent = ms ++ [.sendResults results]))
  | _ => Script t.cookie t.state t.sent

variable {t u : ServerTest} {e : ServerEvent}

/-- In any state: the announced states, and the results after the last of them. -/
theorem Said.script (h : Said t) : ∃ s ms, Script t.cookie s ms ∧
    (t.sent = ms ∨ (s = .exchangeResults ∧ ∃ results, t.sent = ms ++ [.sendResults results])) := by
  unfold Said at h
  split at h
  · exact ⟨_, _, h, .inl rfl⟩
  · obtain ⟨ms, hms, hs⟩ := h
    exact ⟨_, ms, hms, .inr ⟨rfl, _, hs⟩⟩
  · exact h
  · exact ⟨_, _, h, .inl rfl⟩

theorem said_acceptStream (s : Nat) (h : Script t.cookie t.state t.sent) : Said (t.acceptStream s) := by
  by_cases hc : len (t.createAndRegisterStreamWorker s).streams = t.totalNeededStreams
  · simp only [Said, acceptStream, if_pos hc]
    exact h
  · simp only [Said, acceptStream, if_neg hc]
    exact h

theorem said_afterTermination (h : Script t.cookie t.state t.sent) : Said t.afterTermination := by
  by_cases hc : len t.streams = 0
  · simpa only [Said, afterTermination, if_pos hc] using h
  · simpa only [Said, afterTermination, if_neg hc] using h

theorem said_collectNext (pending : Map StreamWorkerRef) (h : Script t.cookie t.state t.sent) :
    Said (t.collectNext pending) := by
  by_cases hc : len pending = 0
  · simpa only [Said, collectNext, if_pos hc] using h
  · simpa only [Said, collectNext, if_neg hc] using h

theorem said_step (h : Step t e u) (hp : Phase t) (hi : Said t) : Said u := by
  cases h with
  | start _ hpc | announce _ hpc | startLoad _ hpc | wait _ hpc | writeIgnored hpc | terminated hpc =>
    simp only [Said, hpc] at hi ⊢
    exact hi
  | finish _ hpc =>
    simp only [Said, hpc] at hi
    exact said_collectNext _ hi
  | store _ hpc => simpa only [Said, hpc] using hi
  | wrote hpc =>
    simp only [Phase, hpc] at hp
    simp only [Said, hpc] at hi
    obtain ⟨ho, ht, -⟩ := hp
    exact hi.next (ho ▸ ht)
  | sentResults hpc =>
    rename_i results remote
    simp only [Phase, hpc] at hp
    simp only [Said, hpc, hp] at hi
    cases remote with
    | none => exact ⟨_, _, hi, .inr ⟨rfl, _, rfl⟩⟩
    | some r => exact ⟨_, hi, rfl⟩
  | accept hpc => exact said_acceptStream _ (by simpa only [Said, hpc] using hi)
  | unknown hpc => exact said_afterTermination (by simpa only [Said, hpc] using hi)
  | joined hpc => exact said_afterTermination (by simpa [Said, hpc] using hi)
  | collected hpc => exact said_collectNext _ (by simpa [Said, hpc] using hi)
  | timedOut hpc => exact said_collectNext _ (by simpa only [Said, hpc] using hi)
  | readResults hpc | readOther hpc => simpa only [Said, hpc] using hi
  | worker hw =>
    unfold Said at *
    simp only [workerStep_test hw]
    exact hi
  | guard | unguard | offer | vanish => exact hi
  | writeFailed hpc | sendFailed hpc | joinFailed hpc | readFailed hpc =>
    obtain ⟨s, ms, hs, hsent⟩ := hi.script
    exact ⟨s, ms, hs, hsent⟩

/-- The server never takes back what it wrote. -/
theorem sent_of_step (h : Step t e u) : t.sent <+: u.sent := by
  cases h <;> simp

/-- Only the end of a read adds to what was received. -/
theorem received_of_step (h : Step t e u) :
    u.received = t.received ∨ ∃ m, e = .read (some m) ∧ u.received = t.received ++ [m] := by
  cases h <;> simp

end ServerTest

/-! ## What the client reads -/

namespace ClientTest
variable {t u : ClientTest} {e : ClientEvent}

/-- The messages the client's reads returned. -/
def heard (t : ClientTest) : List ServerMessage := t.received.filterMap (fun r => r.toOption)

theorem heard_of_step (h : Step t e u) :
    u.heard = t.heard ∨ ∃ m, e = .read (.ok m) ∧ u.heard = t.heard ++ [m] := by
  unfold heard
  rcases received_of_step h with hr | ⟨r, he, hr⟩
  · exact .inl (by rw [hr])
  · rw [hr, List.filterMap_append]
    cases r with
    | error _ => exact .inl (by simp [Except.toOption])
    | ok m => exact .inr ⟨m, he, by simp [Except.toOption]⟩

theorem heard_read (t : ClientTest) (m : ServerMessage) (pc : ClientPc) :
    { t with received := t.received ++ [Except.ok m], pc := pc }.heard = t.heard ++ [m] := by
  simp [heard, Except.toOption]

/-- The client never takes back what it wrote. -/
theorem sent_of_step (h : Step t e u) : t.sent <+: u.sent := by
  cases h <;> simp

end ClientTest

/-! ## The pair -/

structure Pair where
  server : ServerTest
  client : ClientTest

inductive PairEvent where
  | server (e : ServerEvent)
  | client (e : ClientEvent)

namespace Pair

def new (cookie : String) (params : TestParameters) : Pair :=
  { server := ServerTest.new cookie params, client := ClientTest.new cookie params }

/-- The next message for the client that it has not read. -/
def toClient (p : Pair) : Option ServerMessage := p.server.sent[p.client.heard.length]?

/-- The next message for the server that it has not read. -/
def toServer (p : Pair) : Option ClientMessage := p.client.sent[p.server.received.length]?

/-- What a read of the control socket can yield: the next message, or an error. -/
def delivers (p : Pair) : PairEvent → Bool
  | .server (.read (some m)) => p.toServer = some m
  | .client (.read (.ok m)) => p.toClient = some m
  | _ => true

def step (p : Pair) (e : PairEvent) : Option Pair :=
  if p.delivers e then
    match e with
    | .server e => (p.server.step e).map (fun t => { p with server := t })
    | .client e => (p.client.step e).map (fun t => { p with client := t })
  else none

/-- A step of one of the two. -/
inductive Step : Pair → PairEvent → Pair → Prop
  | server {p e t} : (∀ m, e = .read (some m) → p.toServer = some m) → ServerTest.Step p.server e t →
      Step p (.server e) { p with server := t }
  | client {p e t} : (∀ m, e = .read (.ok m) → p.toClient = some m) → ClientTest.Step p.client e t →
      Step p (.client e) { p with client := t }

theorem step_cases {p q : Pair} {e : PairEvent} (h : p.step e = some q) : Step p e q := by
  simp only [step, Option.ite_none_right_eq_some] at h
  obtain ⟨hd, h⟩ := h
  cases e with
  | server e =>
    obtain ⟨t, ht, rfl⟩ := Option.map_eq_some_iff.1 h
    refine .server ?_ (ServerTest.step_cases ht)
    rintro m rfl
    simpa [delivers] using hd
  | client e =>
    obtain ⟨t, ht, rfl⟩ := Option.map_eq_some_iff.1 h
    refine .client ?_ (ClientTest.step_cases ht)
    rintro m rfl
    simpa [delivers] using hd

/-- Each end has read the first messages the other one wrote. -/
structure Linked (p : Pair) : Prop where
  phase : p.server.Phase
  said : p.server.Said
  heard : p.client.heard <+: p.server.sent
  received : p.server.received <+: p.client.sent

theorem linked_step {p q : Pair} {e : PairEvent} (h : Step p e q) (hi : Linked p) : Linked q := by
  cases h with
  | @server ev t hd hs =>
    refine ⟨ServerTest.phase_step hs hi.phase, ServerTest.said_step hs hi.phase hi.said,
      hi.heard.trans (ServerTest.sent_of_step hs), ?_⟩
    rcases ServerTest.received_of_step hs with hr | ⟨m, he, hr⟩
    · exact hr ▸ hi.received
    · exact hr ▸ prefix_concat hi.received (hd m he)
  | @client ev t hd hs =>
    refine ⟨hi.phase, hi.said, ?_, hi.received.trans (ClientTest.sent_of_step hs)⟩
    rcases ClientTest.heard_of_step hs with hr | ⟨m, he, hr⟩
    · exact hr ▸ hi.heard
    · exact hr ▸ prefix_concat hi.heard (hd m he)

theorem linked_reach {cookie : String} {params : TestParameters} {p : Pair} (h : Reach step (new cookie params) p) :
    Linked p :=
  h.inv Linked ⟨⟨rfl, rfl⟩, .start, by simp [new, ClientTest.new, ClientTest.heard], by simp [new, ServerTest.new]⟩
    (fun _ _ _ hi hs => linked_step (step_cases hs) hi)

/-- The client's end as a run of its own. -/
theorem client_reach {cookie : String} {params : TestParameters} {p : Pair} (h : Reach step (new cookie params) p) :
    Reach ClientTest.step (ClientTest.new cookie params) p.client := by
  refine h.inv (fun p => Reach ClientTest.step (ClientTest.new cookie params) p.client) .refl (fun p e q hi hs => ?_)
  cases e with
  | server =>
    simp only [step, Option.ite_none_right_eq_some, Option.map_eq_some_iff] at hs
    obtain ⟨-, _, -, rfl⟩ := hs
    exact hi
  | client e =>
    simp only [step, Option.ite_none_right_eq_some, Option.map_eq_some_iff] at hs
    obtain ⟨-, _, ht, rfl⟩ := hs
    exact hi.next ht

end Pair

end Netperf
