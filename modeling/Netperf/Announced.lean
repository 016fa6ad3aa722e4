import Netperf.Observations
import Netperf.Directions
/-!
# What the server has announced and what it has stored

`set_state` writes the frame first and stores the state afterwards. In between
the accept loop can lock the state and finds the old one, while the client may
already act on the new one. Apart from that window the stored state is never
behind, and an honest client's data connections are let in.
-/

namespace Netperf

open Maps Frames Runs Lists

namespace ServerTest
variable {t u : ServerTest} {e : ServerEvent}

/-- Not between the write of a frame and the store of another state. -/
def settled (t : ServerTest) : Bool :=
  match t.pc with
  | .storingState s => s = t.state
  | _ => true

/-- A state later than the stored one has been announced. -/
def Behind (t : ServerTest) : Prop := ∃ s, .setState s ∈ t.sent ∧ t.state.rank < s.rank

/-- What was announced is stored, or about to be. -/
def Current (t : ServerTest) : Prop :=
  ∀ s, .setState s ∈ t.sent → s.rank ≤ t.state.rank ∨ t.pc = .storingState s

theorem current_step (h : Step t e u) (hp : Phase t) (hi : Current t) : Current u := by
  have hr := (rank_step h hp).1
  -- unless a state is pending, what was announced is stored
  have hkeep : (∀ s, t.pc ≠ .storingState s) → u.sent = t.sent → Current u := by
    intro hpc hs s hm
    rw [hs] at hm
    exact .inl (((hi s hm).resolve_right (hpc s)).trans hr)
  cases h with
  | store _ hpc =>
    intro s hm
    rcases hi s hm with hs | hs
    · exact .inl (hs.trans hr)
    · rw [hpc, ServerPc.storingState.injEq] at hs
      rw [hs]
      exact .inl le_rfl
  | wrote hpc =>
    intro s hm
    rcases List.mem_append.1 hm with hm | hm
    · exact .inl ((hi s hm).resolve_right (by simp [hpc]))
    · rw [List.mem_singleton, ServerMessage.setState.injEq] at hm
      rw [hm]
      exact .inr rfl
  | sentResults hpc =>
    intro s hm
    rcases List.mem_append.1 hm with hm | hm
    · exact .inl ((hi s hm).resolve_right (by simp [hpc]))
    · cases List.mem_singleton.1 hm
  | worker hw =>
    intro s hm
    simp only [workerStep_test hw]
    exact hi s hm
  | guard | unguard | offer | vanish => exact hi
  | joined hpc | collected hpc => exact hkeep (by simp [hpc]) (by simp)
  | start _ hpc | announce _ hpc | startLoad _ hpc | wait _ hpc | finish _ hpc => exact hkeep (by simp [hpc]) rfl
  | writeFailed hpc | writeIgnored hpc | sendFailed hpc | accept hpc | terminated hpc | unknown hpc | joinFailed hpc
  | timedOut hpc | readFailed hpc | readResults hpc | readOther hpc => exact hkeep (by simp [hpc]) rfl

theorem Transit.rank_lt {cookie : String} {s s' : State} (h : Transit cookie s s') (hne : s' ≠ s) : s.rank < s'.rank := by
  cases h with
  | rerun => exact absurd rfl hne
  | _ => simp [State.rank]

end ServerTest

/-- The state reached was announced, except the first. -/
theorem Script.mem {cookie : String} {s : State} {ms : List ServerMessage} (h : Script cookie s ms)
    (hs : s ≠ .testStart) : .setState s ∈ ms := by
  cases h with
  | start => exact absurd rfl hs
  | next => simp

theorem Script.first {cookie : String} {ms : List ServerMessage} (h : Script cookie .testStart ms) : ms = [] := by
  generalize hs : State.testStart = s at h
  cases h with
  | start => rfl
  | next _ ht => exact absurd hs.symm ht.not_testStart.1

namespace ServerTest
variable {t u : ServerTest} {e : ServerEvent}

/-- The stored state is behind exactly between a write and its store. -/
theorem behind_iff (hp : Phase t) (hs : Said t) (hc : Current t) : t.Behind ↔ t.settled = false := by
  constructor
  · rintro ⟨s, hm, hlt⟩
    have hpc := (hc s hm).resolve_left (by omega)
    simp only [settled, hpc, decide_eq_false_iff_not]
    rintro rfl
    omega
  · intro h
    unfold settled at h
    split at h
    · rename_i s hpc
      simp only [Phase, hpc] at hp
      simp only [Said, hpc] at hs
      exact ⟨s, hs.mem hp.2.not_testStart.1, hp.2.rank_lt (by simpa using h)⟩
    · cases h

theorem current_reach {cookie : String} {params : TestParameters} (h : Reach step (new cookie params) t) :
    Phase t ∧ Said t ∧ Current t := by
  refine h.inv (fun t => Phase t ∧ Said t ∧ Current t) ⟨⟨rfl, rfl⟩, .start, ?_⟩ ?_
  · simp [Current, new]
  · rintro t e u ⟨hp, hs, hc⟩ hstep
    have hstep := step_cases hstep
    exact ⟨phase_step hstep hp, said_step hstep hp hs, current_step hstep hp hc⟩

/-- A settled test that has announced anything has left its first state. -/
theorem Said.left_start (hs : Said t) (hr : t.returned = false) (ht : t.settled = true) (hsent : t.sent ≠ []) :
    t.state ≠ .testStart := by
  intro hst
  have hscript : Script t.cookie .testStart t.sent := by
    unfold Said at hs
    unfold settled at ht
    split at hs
    · rename_i s hpc
      simp only [hpc, decide_eq_true_eq] at ht
      rwa [ht, hst] at hs
    · simp [returned, *] at hr
    · simp [returned, *] at hr
    · rwa [hst] at hs
  exact hsent hscript.first

@[simp] theorem acceptStream_returned (n : Nat) : (t.acceptStream n).returned = false := by
  by_cases h : len (t.createAndRegisterStreamWorker n).streams = t.totalNeededStreams <;>
    simp [returned, acceptStream, h]

@[simp] theorem afterTermination_returned : t.afterTermination.returned = false := by
  by_cases h : len t.streams = 0 <;> simp [returned, afterTermination, h]

@[simp] theorem collectNext_returned (pending : Map StreamWorkerRef) : (t.collectNext pending).returned = false := by
  by_cases h : len pending = 0 <;> simp [returned, collectNext, h]

/-- A controller that has returned writes nothing. -/
theorem silent_of_returned (h : Step t e u) (ht : t.returned = true) : u.sent = t.sent ∧ u.returned = true := by
  cases h <;> simp_all [returned]

/-- While streams are missing a settled test that has left its first state waits
for them. -/
theorem Gathers.creating (hg : Gathers t) (hp : Phase t) (ht : t.settled = true) (hne : t.state ≠ .testStart) :
    ∃ cookie, t.state = .createStreams cookie := by
  have hstate := hg.state
  have hgather : t.state.gathering = true := by
    cases hpc : t.pc with
    | writingState s k =>
      simp only [Phase, hpc] at hp
      simp only [nextState, hpc] at hstate
      exact absurd (hp.2.1.gathering hstate) hne
    | storingState s =>
      simp only [settled, hpc, decide_eq_true_eq] at ht
      simp only [nextState, hpc] at hstate
      rwa [← ht]
    | _ => simpa only [nextState, hpc] using hstate
  cases hs : t.state with
  | testStart => exact absurd hs hne
  | createStreams cookie => exact ⟨cookie, rfl⟩
  | _ => simp [hs, State.gathering] at hgather

/-- How a controller ends: a write or the read of the control socket fails, it
joins a task that panicked, or it has sent its results. -/
inductive Leaves (t : ServerTest) : ServerEvent → ServerTest → Prop
  | unannounced {s} : t.pc = .writingState s .propagate → Leaves t (.write false) { t with pc := .returned none }
  | unsent {results remote} : t.pc = .sendingResults results remote →
      Leaves t (.write false) { t with pc := .returned none }
  | unread {results} : t.pc = .readingResults results → Leaves t (.read none) { t with pc := .returned none }
  | unjoined {id ref} : t.pc = .joining id ref → t.taskResult ref = some .panicked →
      Leaves t .join { t with pc := .returned none }
  | done {results remote} : t.pc = .sendingResults results remote →
      Leaves t (.write true)
        { t with sent := t.sent ++ [.sendResults results], pc := .returned (remote.map (fun r => (results, r))) }

theorem leaves_of_step (h : Step t e u) (ht : t.returned = false) (hu : u.returned = true) : Leaves t e u := by
  cases h with
  | writeFailed hpc => exact .unannounced hpc
  | sendFailed hpc => exact .unsent hpc
  | readFailed hpc => exact .unread hpc
  | joinFailed hpc hres => exact .unjoined hpc hres
  | sentResults hpc => exact .done hpc
  | worker => exact absurd (hu.symm.trans ht) (by simp)
  | guard | unguard | offer | vanish => exact absurd (hu.symm.trans ht) (by simp)
  | finish | accept | unknown | joined | collected | timedOut => simp at hu
  | _ => simp [returned] at hu

/-- The controller of a test gives up while streams are missing only when it
could not announce `CreateStreams`. -/
theorem Leaves.early (h : Leaves t e u) (hp : Phase t) (hs : Said t) (hg : Gathers t) : u.sent = [] := by
  have hstate := hg.state
  cases h with
  | unannounced hpc =>
    simp only [Phase, hpc] at hp
    simp only [nextState, hpc] at hstate
    simp only [Said, hpc, hp.2.1.gathering hstate] at hs
    exact hs.first
  | unjoined hpc => exact absurd hpc (hg.unjoined _ _)
  | unsent hpc | unread hpc | done hpc =>
    simp only [Phase, hpc] at hp
    simp [nextState, hpc, hp, State.gathering] at hstate

end ServerTest

/-! ## The client -/

namespace ClientTest
variable {t u : ClientTest} {e : ClientEvent}

/-- A client that makes data connections was told to. -/
def Bidden (t : ClientTest) : Prop := t.pc = .connecting → ∃ cookie, t.state = .createStreams cookie

theorem bidden_step (h : Step t e u) (hi : Bidden t) : Bidden u := by
  intro hpc
  cases h with
  | create _ hs => exact ⟨_, hs⟩
  | connected hpc' => exact hi hpc'
  | worker hw =>
    rw [workerStep_test hw]
    exact hi hpc
  | finish | collected | timedOut =>
    simp only [collectNext] at hpc
    split at hpc <;> cases hpc
  | _ => cases hpc

end ClientTest

/-! ## The accept loop -/

namespace Server
variable {decode : List UInt8 → Option ClientEnvelope} {s u : Server} {e : NetEvent}

/-- The test whose state the accept loop is about to read. -/
def reads (s : Server) : Option ServerTest :=
  match s.pc with
  | .locking _ k => s.tests[k]?
  | _ => none

/-- A connection is denied when the state read is another one, or for a wrong
cookie. -/
theorem denying_origin (h : Step decode s e u) {c : Nat} {held : Option Nat} (hpc : u.pc = .denying c held) :
    s.pc = .denying c held ∨
      (e = .lock ∧ ∃ k t, s.pc = .locking c k ∧ s.tests[k]? = some t ∧ ∀ cookie, t.state ≠ .createStreams cookie) ∨
      ∃ k named socket other rest, s.pc = .helloData c k named ∧ s.conns[c]? = some socket ∧
        readCookie decode socket = .ok other rest ∧ other ≠ named := by
  cases h with
  | busy hs ht _ hstate =>
    obtain ⟨rfl, -⟩ := AcceptPc.denying.inj hpc
    exact .inr (.inl ⟨rfl, _, _, hs, ht, hstate⟩)
  | foreign hs hconn hread hne =>
    obtain ⟨rfl, -⟩ := AcceptPc.denying.inj hpc
    exact .inr (.inr ⟨_, _, _, _, _, hs, hconn, hread, hne⟩)
  | test => exact .inl hpc
  | _ => cases hpc

theorem denied_origin (h : Step decode s e u) {c : Nat} (hm : (c, accessDenied) ∈ u.answers) :
    (c, accessDenied) ∈ s.answers ∨ ∃ held, s.pc = .denying c held := by
  rcases answer_cases h hm with hm | ⟨henv, -⟩ | ⟨-, hpc⟩
  · exact .inl hm
  · simp [accessDenied] at henv
  · exact .inr hpc

end Server

/-! ## The session -/

namespace Session
variable {decode : List UInt8 → Option ClientEnvelope} {s u : Session} {e : SessionEvent} {cookie : String}
  {params : TestParameters} {t t' : ServerTest}

/-- The client's data connections carry its cookie. -/
def Presents (decode : List UInt8 → Option ClientEnvelope) (cookie : String) : SessionEvent → Prop
  | .dial socket => names decode socket cookie = true
  | _ => True

/-- The accept loop reads the state only of a settled test. -/
def Undelayed (s : Session) : SessionEvent → Prop
  | .server .lock => s.server.reads.all ServerTest.settled = true
  | _ => True

def Prompt (decode : List UInt8 → Option ClientEnvelope) (cookie : String) (s : Session) (e : SessionEvent) : Prop :=
  Honest decode cookie s e ∧ Presents decode cookie e ∧ Undelayed s e

/-- The client's connections carry its cookie, are made only after an
announcement, and are not denied. -/
structure Admissible (decode : List UInt8 → Option ClientEnvelope) (cookie : String) (s : Session) (t : ServerTest) :
    Prop where
  bidden : s.client.Bidden
  presented : ∀ c ∈ s.dialed, ∀ socket, s.server.conns[c]? = some socket → names decode socket cookie = true
  offering : ∀ socket, s.dial = .pending socket → names decode socket cookie = true
  told : s.dialed ≠ [] ∨ s.dial ≠ .none → t.sent ≠ []
  staffed : t.totalNeededStreams ≤ t.workers.length ∨ t.returned = false ∨ t.sent = []
  undenied : ∀ c ∈ s.dialed, (c, accessDenied) ∉ s.server.answers ∧ ∀ held, s.server.pc ≠ .denying c held

/-- While one of the client's connections is at hand streams are missing. -/
theorem Settled.missing (hi : Settled decode cookie params s t) {c : Nat} (hpc : s.server.pc.conn = some c)
    (hc : c ∈ s.dialed) : t.connections.length < t.totalNeededStreams := by
  obtain ⟨es, hrun⟩ := hi.server
  have hle := hi.dialed_le
  rw [← hi.total] at hle
  by_contra hfull
  have hall : t.connections = s.dialed := hi.aligned.handed.eq_of_length_le (by omega)
  rw [← hall] at hc
  exact ((Server.authentic_run hrun).placed _ t c hi.test hc).2 hpc

/-- The client's test waits for the connection at hand. -/
theorem Admissible.waits (hi : Settled decode cookie params s t) (ha : Admissible decode cookie s t) {c : Nat}
    (hpc : s.server.pc.conn = some c) (hc : c ∈ s.dialed) : t.returned = false ∧ t.Gathers ∧ t.sent ≠ [] := by
  have hshort := (ServerTest.workers_le_connections t).trans_lt (hi.missing hpc hc)
  have hsent := ha.told (.inl (List.ne_nil_of_mem hc))
  have hr : t.returned = false := by
    rcases ha.staffed with h | h | h
    · omega
    · exact h
    · exact absurd h hsent
  refine ⟨hr, ?_, hsent⟩
  rcases hi.gathers hr with h | h
  · omega
  · exact h

theorem Settled.target (hi : Settled decode cookie params s t) (hr : t.returned = false) {k : Nat}
    (hk : s.server.pc.target = some k) : k = s.test := by
  have hw := Server.wired_reach hi.server
  have hin := (hw.target k hk).1
  rw [hw.alive _ t hi.test hr, Option.some.injEq] at hin
  exact hin.symm

/-- A step of the server denies no connection of the client. -/
theorem Admissible.undenied_step (hi : Settled decode cookie params s t) (ha : Admissible decode cookie s t) {v : Server}
    {ev : NetEvent} (hs : Server.Step decode s.server ev v) (hu : Undelayed s (.server ev)) {c : Nat}
    (hc : c ∈ s.dialed) : (c, accessDenied) ∉ v.answers ∧ ∀ held, v.pc ≠ .denying c held := by
  obtain ⟨hans, hpc⟩ := ha.undenied c hc
  have hphase := (Pair.linked_reach hi.pair).phase
  have hcookie : t.cookie = cookie := congrArg Prod.fst (Pair.config_reach hi.pair).1
  constructor
  · intro hm
    rcases Server.denied_origin hs hm with hm | ⟨held, hd⟩
    · exact hans hm
    · exact hpc held hd
  · intro held hd
    rcases Server.denying_origin hs hd with hd | ⟨rfl, k, t₀, hlock, ht₀, hstate⟩ |
      ⟨k, named, socket, other, rest, hhello, hconn, hread, hne⟩
    · exact hpc held hd
    · -- the state read is the one its test waits in
      obtain ⟨hr, hg, hsent⟩ := ha.waits hi (by simp [hlock, AcceptPc.conn]) hc
      have hk : k = s.test := hi.target hr (by simp [hlock, AcceptPc.target])
      subst hk
      obtain rfl := Option.some.inj (hi.test.symm.trans ht₀)
      have hsettled : t.settled = true := by simpa [Undelayed, Server.reads, hlock, ht₀] using hu
      have hstart := (Pair.linked_reach hi.pair).said.left_start hr hsettled hsent
      obtain ⟨named, hn⟩ := hg.creating hphase hsettled hstart
      exact hstate named hn
    · -- the cookie compared is the test's
      obtain ⟨hr, -, -⟩ := ha.waits hi (by simp [hhello, AcceptPc.conn]) hc
      have hk : k = s.test := hi.target hr (by simp [hhello, AcceptPc.target])
      subst hk
      obtain ⟨t₀, ht₀, hstate⟩ := (Server.wired_reach hi.server).checking c _ named hhello
      obtain rfl := Option.some.inj (hi.test.symm.trans ht₀)
      have hnames := ha.presented c hc socket hconn
      simp only [names, hread, decide_eq_true_eq] at hnames
      exact hne (hnames.trans ((hphase.cookie hstate).trans hcookie).symm)

/-- The client's end of its test after a step of the session. -/
theorem Admissible.test_step (hi : Settled decode cookie params s t) (ha : Admissible decode cookie s t)
    (h : t' = t ∨ ∃ te, t.step te = some t') :
    t.sent <+: t'.sent ∧ (t'.totalNeededStreams ≤ t'.workers.length ∨ t'.returned = false ∨ t'.sent = []) := by
  rcases h with rfl | ⟨te, hte⟩
  · exact ⟨List.prefix_rfl, ha.staffed⟩
  have hstep := ServerTest.step_cases hte
  have hl := Pair.linked_reach hi.pair
  refine ⟨ServerTest.sent_of_step hstep, ?_⟩
  have hfull : t.totalNeededStreams ≤ t.workers.length → t'.totalNeededStreams ≤ t'.workers.length := by
    intro h
    rw [PerfTest.totalNeededStreams_config (ServerTest.config_of_step hstep)]
    exact h.trans (ServerTest.workers_step hstep)
  by_cases hr' : t'.returned = true
  · by_cases hr : t.returned = true
    · rcases ha.staffed with h | h | h
      · exact .inl (hfull h)
      · rw [hr] at h
        cases h
      · exact .inr (.inr ((ServerTest.silent_of_returned hstep hr).1.trans h))
    · have hr : t.returned = false := by simpa using hr
      rcases hi.gathers hr with h | hg
      · exact .inl (hfull h)
      · exact .inr (.inr ((ServerTest.leaves_of_step hstep hr hr').early hl.phase hl.said hg))
  · exact .inr (.inl (by simpa using hr'))

/-- A client that connects has heard an announcement. -/
theorem Admissible.announced (hi : Settled decode cookie params s t) (ha : Admissible decode cookie s t)
    (hpc : s.client.pc = .connecting) : t.sent ≠ [] := by
  obtain ⟨named, hstate⟩ := ha.bidden hpc
  have hscript := hi.gathering.script (ClientTest.returned_of_connecting hpc)
  have hnext : s.client.nextState = .createStreams named := by simp [ClientTest.nextState, hpc, hstate]
  rw [hnext] at hscript
  have hmem := (Pair.linked_reach hi.pair).heard.subset (hscript.mem (by simp))
  exact List.ne_nil_of_mem hmem

/-- A step of the client leaves the connections and their answers alone. -/
theorem Admissible.kept (ha : Admissible decode cookie s t) (hserver : u.server = s.server) (hdialed : u.dialed = s.dialed)
    (hbidden : u.client.Bidden) (hoffering : ∀ socket, u.dial = .pending socket → names decode socket cookie = true)
    (htold : u.dialed ≠ [] ∨ u.dial ≠ .none → t.sent ≠ []) : Admissible decode cookie u t := by
  refine ⟨hbidden, ?_, hoffering, htold, ha.staffed, ?_⟩
  · rw [hdialed, hserver]
    exact ha.presented
  · rw [hdialed, hserver]
    exact ha.undenied

theorem admissible_step (h : s.step decode e = some u) (hc : Prompt decode cookie s e)
    (hi : Settled decode cookie params s t) (ha : Admissible decode cookie s t)
    (ht' : u.server.tests[s.test]? = some t') : Admissible decode cookie u t' := by
  have hw := Server.wired_reach hi.server
  have hstep := step_cases h
  have hmade := dialed_step hstep
  obtain ⟨-, hpresents, hundelayed⟩ := hc
  cases hstep with
  | @server ev v hd hs =>
    have hsrv := Server.step_cases hs
    obtain ⟨t₀, ht₀, hcases⟩ := Session.test_step hsrv hw hi.test
    obtain rfl := Option.some.inj (ht₀.symm.trans ht')
    obtain ⟨hsent, hstaffed⟩ := ha.test_step hi (hcases.imp_right (fun ⟨te, hte, _⟩ => ⟨te, hte⟩))
    refine ⟨ha.bidden, ?_, ha.offering, ?_, hstaffed, fun c hc => ha.undenied_step hi hsrv hundelayed hc⟩
    · intro c hc socket hconn
      rcases Server.conns_step hsrv with heq | ⟨sock, -, heq, -⟩
      · rw [heq] at hconn
        exact ha.presented c hc socket hconn
      · rw [heq, List.getElem?_append_left (hi.aligned.known c hc)] at hconn
        exact ha.presented c hc socket hconn
    · intro hdial
      exact fun hnil => ha.told hdial (List.prefix_nil.1 (hnil ▸ hsent))
  | @client ev cl hne hd hs =>
    obtain rfl := Option.some.inj (hi.test.symm.trans ht')
    have hdialed : ({ s with client := cl } : Session).dialed = s.dialed := by
      simpa using hmade
    refine ha.kept rfl hdialed (ClientTest.bidden_step (ClientTest.step_cases hs) ha.bidden) ha.offering ?_
    rw [hdialed]
    exact ha.told
  | @connected c cl hd hm hs =>
    obtain rfl := Option.some.inj (hi.test.symm.trans ht')
    have hdialed : ({ s with client := cl, dial := .none } : Session).dialed = s.dialed := by
      simpa using hmade
    exact ha.kept rfl hdialed (ClientTest.bidden_step (ClientTest.step_cases hs) ha.bidden) (by simp)
      (fun _ => ha.told (.inr (by simp [hd])))
  | @dial socket hpc hd =>
    obtain rfl := Option.some.inj (hi.test.symm.trans ht')
    have hdialed : ({ s with dial := .pending socket } : Session).dialed = s.dialed := by
      simpa using hmade
    refine ha.kept rfl hdialed ha.bidden ?_ (fun _ => ha.announced hi hpc)
    rintro socket' ⟨⟩
    exact hpresents
  | @arrive socket v hd hs =>
    have hsrv := Server.step_cases hs
    have hdialed : ({ s with server := v, dial := .accepted s.server.conns.length } : Session).dialed =
        s.dialed ++ [s.server.conns.length] := by
      simpa using hmade
    have hshape : t' = t ∧ v.conns = s.server.conns ++ [socket] ∧ v.answers = s.server.answers ∧
        ∀ c held, v.pc ≠ .denying c held := by
      cases hsrv with
      | accept | acceptIdle => exact ⟨Option.some.inj (ht'.symm.trans hi.test), rfl, rfl, by simp⟩
    obtain ⟨rfl, hconns, hanswers, hpc⟩ := hshape
    refine ⟨ha.bidden, ?_, by simp, fun _ => ha.told (.inr (by simp [hd])), ha.staffed, fun c hc => ⟨?_, hpc c⟩⟩
    · intro c hc sock hconn
      simp only [hconns] at hconn
      rw [hdialed] at hc
      rcases List.mem_append.1 hc with hc | hc
      · rw [List.getElem?_append_left (hi.aligned.known c hc)] at hconn
        exact ha.presented c hc sock hconn
      · rw [List.mem_singleton.1 hc] at hconn
        obtain rfl : socket = sock := by simpa using hconn
        exact ha.offering socket hd
    · intro hm
      simp only [hanswers] at hm
      rw [hdialed] at hc
      rcases List.mem_append.1 hc with hc | hc
      · exact (ha.undenied c hc).1 hm
      · rw [List.mem_singleton.1 hc] at hm
        exact Nat.lt_irrefl _ (Server.answered_reach hi.server _ _ hm)

theorem admissible_new (k : Nat) (w : Server) :
    Admissible decode cookie (new w k cookie params) (ServerTest.new cookie params) := by
  have hdialed : (new w k cookie params).dialed = [] := rfl
  refine ⟨?_, by simp [hdialed], by simp [new], ?_, .inr (.inl rfl), by simp [hdialed]⟩
  · rintro ⟨⟩
  · intro h
    rcases h with h | h
    · exact absurd hdialed h
    · exact absurd rfl h

/-- Every state of a session: the facts of its test, of which the second half
needs the prompt steps. -/
theorem admissible_run {k : Nat} {w : Server} {es : List SessionEvent} (hw : Created decode cookie params k w)
    (h : Run (step decode) (Prompt decode cookie) (new w k cookie params) es s) :
    s.test = k ∧ ∃ t, Settled decode cookie params s t ∧ Admissible decode cookie s t := by
  induction h with
  | nil => exact ⟨rfl, _, settled_new hw, admissible_new _ _⟩
  | snoc _ hc hs ih =>
    obtain ⟨hk, t, hi, ha⟩ := ih
    obtain ⟨htest, -⟩ := pair_step (step_cases hs) (Server.wired_reach hi.server) hi.test
    obtain ⟨t', hi'⟩ := settled_step hs hc.1 hi
    exact ⟨htest.trans hk, t', hi', admissible_step hs hc hi ha (htest ▸ hi'.test)⟩

end Session

/-- Where the accept loop reads a stored state, that state is behind exactly if
the controller is between writing a frame and storing its state. If the loop
never reads in that window, no data connection of an honest client is denied. -/
theorem announced_is_stored {decode : List UInt8 → Option ClientEnvelope} :
    (∀ s t, Reach (Server.step decode) Server.init s → s.reads = some t → (t.Behind ↔ t.settled = false)) ∧
    (∀ cookie params k w es s, Session.Created decode cookie params k w →
      Run (Session.step decode) (Session.Prompt decode cookie) (Session.new w k cookie params) es s →
      ∀ c ∈ s.dialed, (c, accessDenied) ∉ s.server.answers) := by
  constructor
  · intro s t h hr
    unfold Server.reads at hr
    split at hr
    · rename_i c k hpc
      obtain ⟨cookie, params, ht⟩ := Server.test_reach h k t hr
      obtain ⟨hp, hs, hc⟩ := ServerTest.current_reach ht
      exact ServerTest.behind_iff hp hs hc
    · cases hr
  · intro cookie params k w es s hw h c hc
    obtain ⟨-, t, -, ha⟩ := Session.admissible_run hw h
    exact (ha.undenied c hc).1

namespace Session
variable {decode : List UInt8 → Option ClientEnvelope} {cookie : String}

instance (e : SessionEvent) : Decidable (Presents decode cookie e) := by
  unfold Presents
  split <;> infer_instance

instance (s : Session) (e : SessionEvent) : Decidable (Undelayed s e) := by
  unfold Undelayed
  split <;> infer_instance

instance (s : Session) (e : SessionEvent) : Decidable (Prompt decode cookie s e) := by
  unfold Prompt
  infer_instance

/-- The server has written `SetState(CreateStreams)` and not stored it. The
client reads it and connects its data stream. -/
def earlyRun : List SessionEvent :=
  ([.lock, .lock, .write true] : List ServerEvent).map (fun e => .server (.test 0 e)) ++
    ([.lock, .lock, .read (.ok (.setState (.createStreams "c"))), .lock, .lock] : List ClientEvent).map .client ++
    [.dial (Server.peer [.clientMessage (.hello "c")] false), .arrive]

end Session

/-- A server that waits for streams is read; a stream gets in, past somebody
with another cookie. -/
theorem announced_is_stored_one :
    (∃ s t, Reach (Server.step Server.startDecode) Server.init s ∧ s.reads = some t ∧ t.sent ≠ [] ∧ ¬ t.Behind) ∧
    (∃ w es s, Session.Created Server.startDecode "c" (uploadParams 1) 0 w ∧
      Run (Session.step Server.startDecode) (Session.Prompt Server.startDecode "c")
        (Session.new w 0 "c" (uploadParams 1)) es s ∧
      2 ∈ s.dialed ∧ (1, accessDenied) ∈ s.server.answers ∧ (2, accessDenied) ∉ s.server.answers) := by
  constructor
  · obtain ⟨s, hs, hp⟩ := exists_of_exec (Server.step Server.startDecode) Server.init
      (Server.startRun ++ [.accept (Server.peer [.clientMessage (.hello "c")] false)])
      (fun s => s.reads.any (fun t => t.settled = true ∧ t.sent ≠ [])) (by decide +kernel)
    simp only [Option.any_eq_true, decide_eq_true_eq] at hp
    obtain ⟨t, ht, hsettled, hsent⟩ := hp
    refine ⟨s, t, hs, ht, hsent, fun hb => ?_⟩
    rw [(announced_is_stored.1 s t hs ht).1 hb] at hsettled
    cases hsettled
  · obtain ⟨w, s, hw, hrun, hp⟩ := Session.exists_session Server.startDecode (Session.Prompt Server.startDecode "c")
      (Server.peer Server.startEnvelopes false) "c" (uploadParams 1) Session.streamRun
      (fun s => 2 ∈ s.dialed ∧ (1, accessDenied) ∈ s.server.answers) (by decide +kernel)
    simp only [decide_eq_true_eq] at hp
    exact ⟨w, _, s, hw, hrun, hp.1, hp.2, announced_is_stored.2 _ _ _ _ _ _ hw hrun 2 hp.1⟩

/-- The accept loop is about to read `TestStart` after `CreateStreams` was
announced, and the client that followed the announcement is denied. -/
theorem announced_not_stored :
    (∃ w es s t, Session.Created Server.startDecode "c" (uploadParams 1) 0 w ∧
      Run (Session.step Server.startDecode)
        (fun s e => Session.Honest Server.startDecode "c" s e ∧ Session.Presents Server.startDecode "c" e)
        (Session.new w 0 "c" (uploadParams 1)) es s ∧
      s.server.reads = some t ∧ t.Behind) ∧
    (∃ w es s, Session.Created Server.startDecode "c" (uploadParams 1) 0 w ∧
      Run (Session.step Server.startDecode)
        (fun s e => Session.Honest Server.startDecode "c" s e ∧ Session.Presents Server.startDecode "c" e)
        (Session.new w 0 "c" (uploadParams 1)) es s ∧
      ∃ c ∈ s.dialed, (c, accessDenied) ∈ s.server.answers) := by
  constructor
  · obtain ⟨w, s, hw, hrun, hp⟩ := Session.exists_session Server.startDecode
      (fun s e => Session.Honest Server.startDecode "c" s e ∧ Session.Presents Server.startDecode "c" e)
      (Server.peer Server.startEnvelopes false) "c" (uploadParams 1) Session.earlyRun
      (fun s => s.server.reads.any (fun t => .setState (.createStreams "c") ∈ t.sent ∧ t.state = .testStart))
      (by decide +kernel)
    simp only [Option.any_eq_true, decide_eq_true_eq] at hp
    obtain ⟨t, ht, hm, hstate⟩ := hp
    exact ⟨w, _, s, t, hw, hrun, ht, _, hm, by simp [hstate, State.rank]⟩
  · obtain ⟨w, s, hw, hrun, hp⟩ := Session.exists_session Server.startDecode
      (fun s e => Session.Honest Server.startDecode "c" s e ∧ Session.Presents Server.startDecode "c" e)
      (Server.peer Server.startEnvelopes false) "c" (uploadParams 1)
      (Session.earlyRun ++ [.server .lock, .server (.write true)])
      (fun s => 1 ∈ s.dialed ∧ (1, accessDenied) ∈ s.server.answers) (by decide +kernel)
    simp only [decide_eq_true_eq] at hp
    exact ⟨w, _, s, hw, hrun, 1, hp⟩

end Netperf
