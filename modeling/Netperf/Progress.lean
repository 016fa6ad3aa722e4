import Netperf.Setup
/-!
# No setup stalls

A session without third parties and faults. As long as the accept loop reads no
state that is about to be overwritten and finds room in the test's channel, some
part can go on until both ends have stored `Running`, if the test needs streams
at all.
-/

namespace Netperf

open Maps Frames Runs Lists

namespace Session
variable {decode : List UInt8 → Option ClientEnvelope} {s u : Session} {e : SessionEvent} {cookie : String}
  {params : TestParameters} {t t' : ServerTest}

/-- No third party connects, nothing fails that the two ends do not refuse, and
the client stays. -/
def Faultless (s : Session) : SessionEvent → Prop
  | .server (.accept _) => False
  | .server (.write ok) => ok = true
  | .server (.test k e) => k = s.test → e.unfailing = true
  | .client (.connect none) => s.denied = true
  | .client e => e.unfailing = true
  | _ => True

def Smooth (decode : List UInt8 → Option ClientEnvelope) (cookie : String) (s : Session) (e : SessionEvent) : Prop :=
  Honest decode cookie s e ∧ Presents decode cookie e ∧ Faultless s e

/-- The accept loop hands over a connection only while the test's channel has
room for it. -/
def HasRoom (s : Session) : SessionEvent → Prop
  | .server .send => s.server.hands.all (fun t => t.queue.length < internalProtBuffer) = true
  | _ => True

def Steady (decode : List UInt8 → Option ClientEnvelope) (cookie : String) (s : Session) (e : SessionEvent) : Prop :=
  Smooth decode cookie s e ∧ Undelayed s e ∧ HasRoom s e

theorem Steady.prompt (h : Steady decode cookie s e) : Prompt decode cookie s e := ⟨h.1.1, h.1.2.1, h.2.1⟩

/-- The event is one of the accept loop, of the client's two controllers, or of
the data connection between them; workers do not count. -/
def drives (s : Session) : SessionEvent → Bool
  | .server (.test _ (.worker _ _)) => false
  | .server (.test k _) => k = s.test
  | .client (.worker _ _) => false
  | _ => true

/-- Some part of the session can go on. -/
def Advances (decode : List UInt8 → Option ClientEnvelope) (cookie : String) (s : Session) : Prop :=
  ∃ e u, s.drives e = true ∧ Smooth decode cookie s e ∧ s.step decode e = some u

/-- Nobody has stopped with an error, and the server answers each of the
client's data connections. -/
structure Flowing (decode : List UInt8 → Option ClientEnvelope) (cookie : String) (s : Session) (t : ServerTest) :
    Prop where
  server : t.Advancing
  client : s.client.Advancing
  serving : s.server.pc ≠ .returned
  idle : s.server.pc.negotiating = false
  ours : ∀ c, s.server.pc.conn = some c → c ∈ s.dialed
  answered : ∀ c, s.dial = .accepted c → s.server.pc.conn = some c ∨ (c, .serverMessage .welcome) ∈ s.server.answers
  handing : ∀ c k, s.server.pc = .handing c k → (c, .serverMessage .welcome) ∈ s.server.answers

/-- A connection at hand carries the cookie that is asked for. -/
theorem Flowing.names (ha : Admissible decode cookie s t)
    (hf : Flowing decode cookie s t) {c k : Nat} {named : String} {socket : Source}
    (hpc : s.server.pc = .helloData c k named) (hconn : s.server.conns[c]? = some socket) :
    ∃ rest, readCookie decode socket = .ok cookie rest := by
  have hnames := ha.presented c (hf.ours c (by simp [hpc, AcceptPc.conn])) socket hconn
  unfold Session.names at hnames
  split at hnames
  · rename_i other rest hread
    simp only [decide_eq_true_eq] at hnames
    exact ⟨rest, hnames ▸ hread⟩
  · cases hnames

/-- The connection at hand is for the client's test, which still waits for it. -/
theorem Flowing.target (hi : Settled decode cookie params s t) (ha : Admissible decode cookie s t)
    (hf : Flowing decode cookie s t) {k c : Nat} (hk : s.server.pc.target = some k) (hc : s.server.pc.conn = some c) :
    k = s.test ∧ t.returned = false := by
  obtain ⟨hr, -, -⟩ := ha.waits hi hc (hf.ours c hc)
  exact ⟨hi.target hr hk, hr⟩

/-- `run_server` does not come to an end. -/
theorem Flowing.serves (hi : Settled decode cookie params s t) (ha : Admissible decode cookie s t)
    (hf : Flowing decode cookie s t) {v : Server} {ev : NetEvent} (hs : Server.Step decode s.server ev v)
    (he : Faultless s (.server ev)) (hroom : HasRoom s (.server ev)) : v.pc ≠ .returned := by
  intro hv
  rcases Server.leaves_of_step hs hf.serving hv with ⟨c, k, named, socket, hpc, hconn, hread⟩ | ⟨c, k, -, rfl⟩ |
    ⟨c, k, hpc, rfl, hnone⟩
  · obtain ⟨rest, hok⟩ := hf.names ha hpc hconn
    exact hread _ _ hok
  · cases he
  · have hw := Server.wired_reach hi.server
    have hk := hw.target k (by simp [hpc, AcceptPc.target])
    obtain ⟨hks, hr⟩ := hf.target hi ha (k := k) (c := c) (by simp [hpc, AcceptPc.target]) (by simp [hpc, AcceptPc.conn])
    subst hks
    have hq : t.queue.length < internalProtBuffer := by simpa [HasRoom, Server.hands, hpc, hi.test] using hroom
    simp [Server.handOver, hw.same, hk.1, hi.test, hr, TestController.trySend, hq] at hnone

/-- A step of the server that accepts nobody else. -/
theorem Flowing.server_step (hi : Settled decode cookie params s t) (ha : Admissible decode cookie s t)
    (hf : Flowing decode cookie s t) {v : Server} {ev : NetEvent} (hs : Server.Step decode s.server ev v)
    (he : Faultless s (.server ev)) (hroom : HasRoom s (.server ev)) (ht' : t'.Advancing) :
    Flowing decode cookie { s with server := v } t' := by
  have hserves := hf.serves hi ha hs he hroom
  refine ⟨ht', hf.client, hserves, ?_, fun c hc => hf.ours c ?_, ?_, ?_⟩
  · rcases Server.negotiating_step hs hf.idle with h | ⟨socket, rfl, -⟩
    · exact h
    · cases he
  · rcases Server.conn_origin hs hc with h | ⟨socket, rfl⟩
    · exact h
    · cases he
  · intro c hd
    rcases hf.answered c hd with hc | hm
    · rcases Server.conn_leaves hs hf.idle hc with h | h | ⟨held, h⟩ | ⟨k, h⟩
      · exact .inl h
      · exact absurd h hserves
      · exact absurd h ((ha.undenied c (hf.ours c hc)).2 held)
      · exact .inr (Server.answers_kept hs (hf.handing c k h))
    · exact .inr (Server.answers_kept hs hm)
  · intro c k hpc
    rcases Server.handing_origin hs hpc with h | hm
    · exact Server.answers_kept hs (hf.handing c k h)
    · exact hm

/-- The client's next connection arrives while its test waits. -/
theorem Flowing.arrive (hi : Settled decode cookie params s t) (hf : Flowing decode cookie s t) {v : Server}
    {socket : Source} (hs : Server.Step decode s.server (.accept socket) v) (hr : t.returned = false) :
    Flowing decode cookie { s with server := v, dial := .accepted s.server.conns.length } t := by
  have hshape : v.pc.conn = some s.server.conns.length ∧ v.pc ≠ .returned ∧ v.pc.negotiating = false ∧
      ∀ c k, v.pc ≠ .handing c k := by
    cases hs with
    | accept => exact ⟨rfl, by simp, rfl, by simp⟩
    | acceptIdle _ hup =>
      rw [(Server.wired_reach hi.server).all_returned hup hi.test] at hr
      cases hr
  obtain ⟨hconn, hserves, hidle, hhanding⟩ := hshape
  refine ⟨hf.server, hf.client, hserves, hidle, ?_, fun c hc => .inl ?_, fun c k h => absurd h (hhanding c k)⟩
  · intro c hc
    rw [hconn, Option.some.injEq] at hc
    simp [dialed, hc]
  · rw [← Dial.accepted.inj hc]
    exact hconn

/-- While the client connects a stream its test has not returned. -/
theorem Admissible.expects (hi : Settled decode cookie params s t) (ha : Admissible decode cookie s t) {socket : Source}
    (hd : s.dial = .pending socket) : t.returned = false := by
  have hmissing := hi.dialing (by simp [hd])
  rcases ha.staffed with hfull | hr | hsent
  · -- all streams it needs would be among the client's
    have hle := (ServerTest.workers_le_connections t).trans hi.aligned.handed.length_le
    have hdialed : s.dialed = s.client.workers.map Worker.stream := by simp [dialed, hd]
    rw [hdialed, List.length_map] at hle
    rw [hi.total] at hfull
    omega
  · exact hr
  · exact absurd hsent (ha.told (.inr (by simp [hd])))

/-- A step that changes the client only. -/
theorem Flowing.client_step (hf : Flowing decode cookie s t) {c : ClientTest} {d : Dial} (hc : c.Advancing)
    (hdialed : ({ s with client := c, dial := d } : Session).dialed = s.dialed)
    (hd : ∀ n, d = .accepted n → s.dial = .accepted n) :
    Flowing decode cookie { s with client := c, dial := d } t := by
  refine ⟨hf.server, hc, hf.serving, hf.idle, ?_, fun n hn => hf.answered n (hd n hn), hf.handing⟩
  rw [hdialed]
  exact hf.ours

/-- The server's controller after a step of the server. -/
theorem Flowing.test_step (hi : Settled decode cookie params s t) (hf : Flowing decode cookie s t) {v : Server}
    {ev : NetEvent} (hs : Server.Step decode s.server ev v) (he : Faultless s (.server ev))
    (hd : ∀ te, ev = .test s.test te → s.delivers (.server te) = true) (ht' : v.tests[s.test]? = some t') :
    t'.Advancing := by
  obtain ⟨t₀, ht₀, hcases⟩ := Session.test_step hs (Server.wired_reach hi.server) hi.test
  obtain rfl := Option.some.inj (ht₀.symm.trans ht')
  rcases hcases with rfl | ⟨te, hte, hst⟩
  · exact hf.server
  obtain ⟨_, _, hreach⟩ := Server.test_reach hi.server _ t hi.test
  refine ServerTest.advancing_step (ServerTest.step_cases hte) (Pair.linked_reach hi.pair).phase hi.ranked.toNumbered
    hi.gathers ?_ ?_ (fun _ _ => ServerTest.joinable hreach hi.ranked.toNumbered) hf.server
  · rcases hst with rfl | rfl | rfl | ⟨c, rfl, -⟩
    · exact he rfl
    · rfl
    · rfl
    · rfl
  · rintro results m hpc rfl
    rcases hst with rfl | h | h | ⟨c, h, -⟩
    · have hm := hd _ rfl
      rw [delivers_eq hi.test, Pair.delivers, decide_eq_true_eq] at hm
      exact ⟨_, (Pair.exchanging_reach hi.pair).matched.serverResults results m hpc hm⟩
    · cases h
    · cases h
    · cases h

/-- The client's controller after a step of the client. -/
theorem Flowing.controller_step (hi : Settled decode cookie params s t) (hf : Flowing decode cookie s t)
    {c : ClientTest} {ev : ClientEvent} (hs : s.client.step ev = some c) (he : ev.unfailing = true)
    (hd : s.delivers (.client ev) = true) : c.Advancing := by
  refine ClientTest.advancing_step (ClientTest.step_cases hs) he hi.gathering ?_
    (fun _ _ => ClientTest.joinable (Pair.client_reach hi.pair) hi.gathering.ranked.toNumbered) hf.client
  rintro results m hpc rfl
  rw [delivers_eq hi.test, Pair.delivers, decide_eq_true_eq] at hd
  exact ⟨_, (Pair.exchanging_reach hi.pair).matched.clientResults results m hpc hd⟩

theorem flowing_step (h : s.step decode e = some u) (hc : Steady decode cookie s e)
    (hi : Settled decode cookie params s t) (ha : Admissible decode cookie s t) (hf : Flowing decode cookie s t)
    (ht' : u.server.tests[s.test]? = some t') : Flowing decode cookie u t' := by
  have hstep := step_cases h
  have hmade := dialed_step hstep
  obtain ⟨⟨-, -, he⟩, -, hroom⟩ := hc
  cases hstep with
  | server hd hs =>
    have hsrv := Server.step_cases hs
    exact hf.server_step hi ha hsrv he hroom (hf.test_step hi hsrv he hd ht')
  | @client ev c hne hd hs =>
    obtain rfl := Option.some.inj (hi.test.symm.trans ht')
    refine hf.client_step (hf.controller_step hi hs ?_ hd) (by simpa using hmade) (fun _ h => h)
    cases ev with
    | connect stream =>
      cases stream with
      | some n => exact absurd rfl (hne n)
      | none =>
        -- it would have been denied
        simp only [Faultless, denied] at he
        split at he
        · rename_i n hdial
          have hn : n ∈ s.dialed := by simp [dialed, hdial]
          exact absurd (by simpa using he) (ha.undenied n hn).1
        · cases he
    | _ => exact he
  | @connected n c _ _ hs =>
    obtain rfl := Option.some.inj (hi.test.symm.trans ht')
    refine hf.client_step (hf.controller_step hi hs rfl ?_) (by simpa using hmade) (by simp)
    simp [delivers_eq hi.test, Pair.delivers]
  | dial =>
    obtain rfl := Option.some.inj (hi.test.symm.trans ht')
    exact hf.client_step hf.client (by simpa using hmade) (by simp)
  | arrive hd hs =>
    have hsrv := Server.step_cases hs
    have htest : t' = t := by
      cases hsrv with
      | accept | acceptIdle => exact Option.some.inj (ht'.symm.trans hi.test)
    rw [htest]
    exact hf.arrive hi hsrv (ha.expects hi hd)

theorem flowing_new {k : Nat} {w : Server} (h : Created decode cookie params k w)
    (hn : (ServerTest.new cookie params).totalNeededStreams ≠ 0) :
    Flowing decode cookie (new w k cookie params) (ServerTest.new cookie params) := by
  obtain ⟨v, -, ha, -, hs⟩ := h
  have hacc : (new w k cookie params).server.pc = .accepting := (created_shape ha hs).1
  refine ⟨.new hn, .new, by simp [hacc], by simp [hacc, AcceptPc.negotiating], ?_, ?_, ?_⟩
  · simp [hacc, AcceptPc.conn]
  · simp [new]
  · simp [hacc]

/-! ## Somebody can go on -/

/-- The accept loop takes a step other than to accept. -/
theorem Advances.loop {v : Server} {ev : NetEvent} (hev : ev = .lock ∨ ev = .read ∨ ev = .write true ∨ ev = .send)
    (h : s.server.step decode ev = some v) : s.Advances decode cookie := by
  refine ⟨.server ev, { s with server := v }, ?_, ?_, ?_⟩ <;> rcases hev with rfl | rfl | rfl | rfl <;>
    simp [drives, Smooth, Honest, Foreign, Presents, Faultless, step, h]

/-- The server's controller takes a step. -/
theorem Advances.server (ht : s.server.tests[s.test]? = some t) (hpc : s.server.pc ≠ .returned) {te : ServerEvent}
    (hte : te = .lock ∨ te = .write true ∨ te = .recv ∨ te = .join) (h : t.step te = some t') :
    s.Advances decode cookie := by
  refine ⟨.server (.test s.test te), { s with server := { s.server with tests := s.server.tests.set s.test t' } }, ?_, ?_, ?_⟩ <;>
    rcases hte with rfl | rfl | rfl | rfl <;>
    simp [drives, Smooth, Honest, Foreign, Presents, Faultless, ServerEvent.unfailing, ServerTest.Loads, step, Server.step,
      ht, hpc, h, ServerEvent.ofAcceptLoop, delivers, Pair.delivers]

/-- The client's controller takes a step. -/
theorem Advances.client {ev : ClientEvent} {c : ClientTest}
    (hev : ev = .lock ∨ ev = .recv ∨ ev = .join ∨ ∃ m, ev = .read (.ok m))
    (hd : s.delivers (.client ev) = true) (h : s.client.step ev = some c) : s.Advances decode cookie := by
  refine ⟨.client ev, { s with client := c }, ?_, ?_, ?_⟩ <;> rcases hev with rfl | rfl | rfl | ⟨m, rfl⟩ <;>
    simp [drives, Smooth, Honest, Foreign, Presents, Faultless, ClientEvent.unfailing, ClientTest.Loads, step, hd, h]

/-- The accept loop finishes with the connection at hand. -/
theorem Flowing.loop_moves (hi : Settled decode cookie params s t) (ha : Admissible decode cookie s t)
    (hf : Flowing decode cookie s t) (hacc : s.server.pc ≠ .accepting) : s.Advances decode cookie := by
  have hw := Server.wired_reach hi.server
  cases hpc : s.server.pc with
  | accepting => exact absurd hpc hacc
  | returned => exact absurd hpc hf.serving
  | locking c k =>
    obtain ⟨-, hlt⟩ := hw.target k (by simp [hpc, AcceptPc.target])
    obtain ⟨t₀, ht₀⟩ : ∃ t₀, s.server.tests[k]? = some t₀ := ⟨_, List.getElem?_eq_getElem hlt⟩
    have hl : t₀.locked = false := by
      by_contra hl
      have := (hw.locks k t₀ ht₀).1 (by simpa using hl)
      simp [hpc, AcceptPc.held] at this
    have hs : ∃ v, s.server.step decode .lock = some v := by
      simp only [Server.step, hpc, ht₀, hl, Bool.false_eq_true, if_false]
      split <;> simp
    obtain ⟨v, hs⟩ := hs
    exact .loop (.inl rfl) hs
  | helloData c k named =>
    have hlt := hw.conn c (by simp [hpc, AcceptPc.conn])
    obtain ⟨socket, hconn⟩ : ∃ socket, s.server.conns[c]? = some socket :=
      ⟨_, List.getElem?_eq_getElem (by omega)⟩
    obtain ⟨rest, hread⟩ := hf.names ha hpc hconn
    have hs : ∃ v, s.server.step decode .read = some v := by
      simp only [Server.step, hpc, hconn, hread]
      split <;> simp
    obtain ⟨v, hs⟩ := hs
    exact .loop (.inr (.inl rfl)) hs
  | welcomeData c k => exact .loop (.inr (.inr (.inl rfl))) (by simp only [Server.step, hpc]; rfl)
  | denying c held => exact .loop (.inr (.inr (.inl rfl))) (by simp only [Server.step, hpc]; rfl)
  | handing c k =>
    have hs : ∃ v, s.server.step decode .send = some v := by
      simp only [Server.step, hpc]
      split <;> simp
    obtain ⟨v, hs⟩ := hs
    exact .loop (.inr (.inr (.inr rfl))) hs
  | hello | welcome | params =>
    have hidle := hf.idle
    simp [hpc, AcceptPc.negotiating] at hidle

/-- While the accept loop waits for connections it holds no guard. -/
theorem Settled.unlocked (hi : Settled decode cookie params s t) (hacc : s.server.pc = .accepting) : t.locked = false := by
  by_contra hl
  have hheld := ((Server.wired_reach hi.server).locks _ t hi.test).1 (by simpa using hl)
  simp [hacc, AcceptPc.held] at hheld

/-- One of the two controllers has not stored `Running` yet. -/
def Unstarted (s : Session) (t : ServerTest) : Prop :=
  t.state.rank < State.running.rank ∨ s.client.state.rank < State.running.rank

/-- A client that exchanges results has seen the load start at both ends. -/
theorem Flowing.exchanged (hi : Settled decode cookie params s t) (hf : Flowing decode cookie s t)
    (hc : t.Current) (he : s.client.exchanging = true) : ¬ s.Unstarted t := by
  have hclient := hf.client.ended he
  have hm : .setState .exchangeResults ∈ s.client.heard :=
    (Pair.exchanging_reach hi.pair).client.told he hf.client.unfailed
  have hserver : 2 ≤ t.state.rank := by
    rcases hc _ ((Pair.linked_reach hi.pair).heard.subset hm) with hr | hpc
    · exact Nat.le_of_succ_le hr
    · exact hf.server.unabandoned (by simp [ServerTest.nextState, hpc])
  rintro (h | h)
  · exact absurd hserver (Nat.not_le.2 h)
  · simp [hclient, State.rank] at h

/-- The client can go on, unless it waits for a message that is not written. -/
theorem Flowing.client_moves (hi : Settled decode cookie params s t) (hf : Flowing decode cookie s t)
    (hacc : s.server.pc = .accepting) (hc : t.Current) (hun : s.Unstarted t)
    (hello : ∃ socket, Session.names decode socket cookie = true) :
    s.Advances decode cookie ∨ (s.client.pc = .selecting ∧ s.client.heard = t.sent) := by
  have hdel : ∀ ev, (∀ r, ev ≠ .read r) → s.delivers (.client ev) = true := by
    intro ev hne
    rw [delivers_eq hi.test]
    cases ev with
    | read r => exact absurd rfl (hne r)
    | _ => rfl
  cases hpc : s.client.pc with
  | start | loopTop | storingState =>
    obtain ⟨c, hs⟩ : ∃ c, s.client.step .lock = some c := by
      simp only [ClientTest.step, hpc]
      exact ⟨_, rfl⟩
    exact .inl (.client (.inl rfl) (hdel _ (by simp)) hs)
  | joining id ref =>
    obtain ⟨r, hr, hne⟩ := ClientTest.joinable (Pair.client_reach hi.pair) hi.gathering.ranked.toNumbered hpc
    obtain ⟨c, hs⟩ : ∃ c, s.client.step .join = some c := by
      simp only [ClientTest.step, hpc, hr]
      cases r with
      | panicked => exact absurd rfl hne
      | _ => exact ⟨_, rfl⟩
    exact .inl (.client (.inr (.inr (.inl rfl))) (hdel _ (by simp)) hs)
  | connecting =>
    refine .inl ?_
    cases hd : s.dial with
    | none =>
      obtain ⟨socket, hnames⟩ := hello
      refine ⟨.dial socket, { s with dial := .pending socket }, rfl, ⟨⟨trivial, trivial⟩, hnames, trivial⟩, ?_⟩
      simp [step, hpc, hd]
    | pending socket =>
      obtain ⟨v, hs⟩ : ∃ v, s.server.step decode (.accept socket) = some v := by
        simp only [Server.step, hacc]
        split <;> exact ⟨_, rfl⟩
      obtain ⟨u, hu⟩ : ∃ u, s.step decode .arrive = some u := by
        simp only [step, hd, hs]
        exact ⟨_, rfl⟩
      exact ⟨.arrive, u, rfl, ⟨⟨trivial, trivial⟩, trivial, trivial⟩, hu⟩
    | accepted c =>
      have hw : s.welcomed c = true := by
        rcases hf.answered c hd with hc | hm
        · simp [hacc, AcceptPc.conn] at hc
        · simp [welcomed, hd, hm]
      obtain ⟨u, hu⟩ : ∃ u, s.step decode (.client (.connect (some c))) = some u := by
        simp only [step, hw, ClientTest.step, hpc]
        exact ⟨_, rfl⟩
      exact ⟨.client (.connect (some c)), u, rfl, ⟨⟨trivial, trivial⟩, trivial, rfl⟩, hu⟩
  | selecting =>
    cases hq : s.client.queue with
    | cons m rest =>
      obtain ⟨c, hs⟩ : ∃ c, s.client.step .recv = some c := by
        simp only [ClientTest.step, hpc, hq]
        exact ⟨_, rfl⟩
      exact .inl (.client (.inr (.inl rfl)) (hdel _ (by simp)) hs)
    | nil =>
      cases hm : (Pair.mk t s.client).toClient with
      | some m =>
        obtain ⟨c, hs⟩ : ∃ c, s.client.step (.read (.ok m)) = some c := by
          simp only [ClientTest.step, hpc]
          exact ⟨_, rfl⟩
        refine .inl (.client (.inr (.inr (.inr ⟨m, rfl⟩))) ?_ hs)
        rw [delivers_eq hi.test]
        simp [Pair.delivers, hm]
      | none =>
        refine .inr ⟨rfl, (Pair.linked_reach hi.pair).heard.eq_of_length_le ?_⟩
        exact List.getElem?_eq_none_iff.1 hm
  | collecting | sendingResults | readingResults | returned =>
    exact absurd hun (hf.exchanged hi hc (by simp [ClientTest.exchanging, hpc]))

/-- A client with all its streams and a server that waits for one of them do not
go together, unless the accept loop has one at hand. -/
theorem Flowing.missing (hi : Settled decode cookie params s t) (hf : Flowing decode cookie s t)
    (hacc : s.server.pc = .accepting) (hpc : s.client.pc = .selecting) (hpt : t.pc = .waiting) (hq : t.queue = [])
    {named : String} (hc : s.client.state = .createStreams named) (hs : t.state = .createStreams named) : False := by
  have hstaffed := hf.client.staffed named hpc hc
  have hr : t.returned = false := by simp [ServerTest.returned, hpt]
  have hshort := hf.server.short hr (by simp [ServerTest.nextState, hpt, hs, State.gathering])
  rw [hi.total] at hshort
  have hlen : t.connections.length = t.workers.length := by simp [ServerTest.connections, hq]
  have hdialed : s.client.workers.length ≤ s.dialed.length := by simp [dialed]
  rcases hi.aligned.live hr (by simp [hacc]) with hall | ⟨c, -, ⟨hd, -⟩ | ⟨k, hk⟩⟩
  · rw [hall] at hlen
    omega
  · have hmissing := hi.dialing (by simp [hd])
    omega
  · rw [hacc] at hk
    cases hk

/-- When the client has heard everything, the server can go on. -/
theorem Flowing.server_moves (hi : Settled decode cookie params s t) (hf : Flowing decode cookie s t)
    (hacc : s.server.pc = .accepting) (hun : s.Unstarted t) (hpc : s.client.pc = .selecting)
    (hheard : s.client.heard = t.sent) : s.Advances decode cookie := by
  have hl := hi.unlocked hacc
  have hloop : s.server.pc ≠ .returned := by simp [hacc]
  have hlinked := Pair.linked_reach hi.pair
  have hphase := hlinked.phase
  have hsaid := hlinked.said
  have hcookie : t.cookie = cookie := congrArg Prod.fst (Pair.config_reach hi.pair).1
  have hscript := hi.gathering.script (by simp [ClientTest.returned, hpc])
  have hnext : s.client.nextState = s.client.state := by simp [ClientTest.nextState, hpc]
  rw [hnext, hheard, ← hcookie] at hscript
  -- where the server has stored what it announced, the client has stored it too
  have hsame : Script t.cookie t.state t.sent → s.client.state = t.state := hscript.unique
  have hover : t.state = .exchangeResults → Script t.cookie t.state t.sent → False := by
    intro hs h
    have hc := hsame h
    rw [hs] at hc
    rcases hun with h | h
    · simp [hs, State.rank] at h
    · simp [hc, State.rank] at h
  cases hpt : t.pc with
  | start | loopTop | storingState =>
    obtain ⟨u, hs⟩ : ∃ u, t.step .lock = some u := by
      simp only [ServerTest.step, hpt, hl]
      exact ⟨_, rfl⟩
    exact .server hi.test hloop (.inl rfl) hs
  | writingState st k =>
    obtain ⟨u, hs⟩ : ∃ u, t.step (.write true) = some u := by
      simp only [ServerTest.step, hpt]
      exact ⟨_, rfl⟩
    exact .server hi.test hloop (.inr (.inl rfl)) hs
  | joining id ref =>
    obtain ⟨_, _, hreach⟩ := Server.test_reach hi.server _ t hi.test
    obtain ⟨r, hr, hne⟩ := ServerTest.joinable hreach hi.ranked.toNumbered hpt
    obtain ⟨u, hs⟩ : ∃ u, t.step .join = some u := by
      simp only [ServerTest.step, hpt, hr]
      cases r with
      | panicked => exact absurd rfl hne
      | _ => exact ⟨_, rfl⟩
    exact .server hi.test hloop (.inr (.inr (.inr rfl))) hs
  | waiting =>
    cases hq : t.queue with
    | cons m rest =>
      obtain ⟨u, hs⟩ : ∃ u, t.step .recv = some u := by
        simp only [ServerTest.step, hpt, hq]
        exact ⟨_, rfl⟩
      exact .server hi.test hloop (.inr (.inr (.inl rfl))) hs
    | nil =>
      simp only [ServerTest.Phase, hpt] at hphase
      simp only [ServerTest.Said, hpt] at hsaid
      have hstate := hsame hsaid
      rcases hphase.2 with hs | hs
      · exact (hf.missing hi hacc hpc hpt hq (hs ▸ hstate) hs).elim
      · rcases hun with h | h
        · simp [hs] at h
        · simp [hstate, hs] at h
  | collecting | readingResults | sendingResults =>
    simp only [ServerTest.Phase, hpt] at hphase
    simp only [ServerTest.Said, hpt] at hsaid
    exact (hover hphase hsaid).elim
  | returned printed =>
    cases printed with
    | none => exact absurd hpt hf.server.unfailed.1
    | some printed =>
      simp only [ServerTest.Said, hpt] at hsaid
      obtain ⟨ms, -, hsent⟩ := hsaid
      exact absurd (by simp [hsent]) (hscript.no_results printed.1)

theorem flowing_run {k : Nat} {w : Server} {es : List SessionEvent} (hw : Created decode cookie params k w)
    (hn : (ServerTest.new cookie params).totalNeededStreams ≠ 0)
    (h : Run (step decode) (Steady decode cookie) (new w k cookie params) es s) :
    s.test = k ∧ ∃ t, Settled decode cookie params s t ∧ Admissible decode cookie s t ∧ Flowing decode cookie s t := by
  induction h with
  | nil => exact ⟨rfl, _, settled_new hw, admissible_new _ _, flowing_new hw hn⟩
  | snoc _ hc hs ih =>
    obtain ⟨hk, t, hi, ha, hf⟩ := ih
    obtain ⟨htest, -⟩ := pair_step (step_cases hs) (Server.wired_reach hi.server) hi.test
    obtain ⟨t', hi'⟩ := settled_step hs hc.prompt.1 hi
    have ht' := htest ▸ hi'.test
    exact ⟨htest.trans hk, t', hi', admissible_step hs hc.prompt hi ha ht', flowing_step hs hc hi ha hf ht'⟩

/-- The client that a test is made for has named its cookie. -/
theorem Created.hello {k : Nat} {w : Server} (h : Created decode cookie params k w) :
    ∃ socket, names decode socket cookie = true := by
  obtain ⟨v, hv, ha, -⟩ := h
  unfold asked at ha
  split at ha
  · rename_i c named socket hpc
    split at ha
    · obtain ⟨rfl, -⟩ := Prod.mk.inj (Option.some.inj ha)
      exact Server.named_reach hv c _ socket (.inr hpc)
    · cases ha
  · cases ha

end Session

/-- The test needs streams: with `parallel = 0` it needs none, and with 32768 in
both directions their sum is 0 as a `u16`. -/
def TestParameters.Startable (params : TestParameters) : Prop :=
  params.parallel ≠ 0 ∧ ¬ (params.direction = .bidirectional ∧ params.parallel = 32768)

instance (params : TestParameters) : Decidable params.Startable := by
  unfold TestParameters.Startable
  infer_instance

theorem TestParameters.startable_iff (cookie : String) (params : TestParameters) :
    (ServerTest.new cookie params).totalNeededStreams ≠ 0 ↔ params.Startable := by
  have hp := params.parallel.toNat_lt
  have hzero : params.parallel ≠ 0 ↔ params.parallel.toNat ≠ 0 := by simp [← UInt16.toNat_inj]
  have hhalf : params.parallel = 32768 ↔ params.parallel.toNat = 32768 := by simp [← UInt16.toNat_inj]
  unfold TestParameters.Startable
  rw [hzero, hhalf]
  cases hd : params.direction with
  | clientToServer | serverToClient =>
    simp [ServerTest.new, TestController.new, PerfTest.totalNeededStreams, PerfTest.new, hd]
  | bidirectional =>
    simp only [ServerTest.new, TestController.new, PerfTest.totalNeededStreams, PerfTest.new, hd, if_true,
      UInt16.toNat_add]
    constructor
    · intro h
      refine ⟨by omega, ?_⟩
      rintro ⟨-, h⟩
      omega
    · rintro ⟨h1, h2⟩
      simp only [true_and] at h2
      omega

/-- In a session without third parties and faults, no end stops with an error,
and some part can go on until both controllers have stored `Running`. -/
theorem setup_goes_on {decode : List UInt8 → Option ClientEnvelope} {cookie : String} {params : TestParameters} {k : Nat}
    {w : Server} {es : List SessionEvent} {s : Session} (hn : params.Startable)
    (hw : Session.Created decode cookie params k w)
    (h : Run (Session.step decode) (Session.Steady decode cookie) (Session.new w k cookie params) es s) :
    ∃ t, s.server.tests[k]? = some t ∧ t.pc ≠ .returned none ∧ s.client.pc ≠ .returned none ∧
      s.server.pc ≠ .returned ∧ (s.Unstarted t → s.Advances decode cookie) := by
  obtain ⟨rfl, t, hi, ha, hf⟩ := Session.flowing_run hw ((params.startable_iff cookie).2 hn) h
  refine ⟨t, hi.test, hf.server.unfailed.1, hf.client.unfailed, hf.serving, fun hun => ?_⟩
  obtain ⟨_, _, hreach⟩ := Server.test_reach hi.server _ t hi.test
  by_cases hacc : s.server.pc = .accepting
  · rcases hf.client_moves hi hacc (ServerTest.current_reach hreach).2.2 hun hw.hello with h | ⟨hpc, hheard⟩
    · exact h
    · exact hf.server_moves hi hacc hun hpc hheard
  · exact hf.loop_moves hi ha hacc

namespace Session
variable {decode : List UInt8 → Option ClientEnvelope} {cookie : String}

instance (s : Session) : ∀ e, Decidable (Faultless s e)
  | .server (.accept _) | .server .lock | .server .read | .server (.write _) | .server .send | .server .timeout
  | .server (.test _ _) | .client .lock | .client .recv | .client (.read _) | .client .join | .client (.collect _ _)
  | .client (.connect none) | .client (.connect (some _)) | .client (.write _) | .client (.worker _ _) | .dial _
  | .arrive => by
    unfold Faultless
    infer_instance

instance (s : Session) (e : SessionEvent) : Decidable (HasRoom s e) := by
  unfold HasRoom
  split <;> infer_instance

instance (s : Session) (e : SessionEvent) : Decidable (Smooth decode cookie s e) := by
  unfold Smooth
  infer_instance

instance (s : Session) (e : SessionEvent) : Decidable (Steady decode cookie s e) := by
  unfold Steady
  infer_instance

/-- Both ends wait: the server for a stream, the client for a message. -/
def Stuck (s : Session) (t : ServerTest) : Prop :=
  (s.server.pc = .accepting ∧ s.dial = .none) ∧ (t.pc = .waiting ∧ t.queue = []) ∧
    (s.client.pc = .selecting ∧ s.client.queue = [] ∧ t.sent.length ≤ s.client.heard.length)

instance (s : Session) (t : ServerTest) : Decidable (s.Stuck t) := by
  unfold Stuck
  infer_instance

theorem Stuck.not_advances {s : Session} {t : ServerTest} (ht : s.server.tests[s.test]? = some t) (h : s.Stuck t) :
    ¬ s.Advances decode cookie := by
  obtain ⟨⟨hacc, hdial⟩, ⟨hpt, hq⟩, hpc, hcq, hheard⟩ := h
  rintro ⟨e, u, hdrives, ⟨-, -, hf⟩, hstep⟩
  cases step_cases hstep with
  | @server ev v hd hs =>
    cases Server.step_cases hs with
    | accept | acceptIdle => exact hf
    | @test k te t₀ _ _ hev ht₀ hte =>
      have hk : k = s.test := by
        cases te <;> simp_all [drives]
      subst hk
      obtain rfl := Option.some.inj (ht.symm.trans ht₀)
      cases ServerTest.step_cases hte with
      | worker => cases hdrives
      | vanish => cases hf rfl
      | guard | unguard | offer => cases hev
      | _ => simp_all
    | _ => simp_all
  | @client ev c hne hd hs =>
    have hm : (Pair.mk t s.client).toClient = none := List.getElem?_eq_none_iff.2 hheard
    rw [delivers_eq ht] at hd
    cases ClientTest.step_cases hs with
    | worker => cases hdrives
    | failed => cases hf
    | told | surprised => simp [Pair.delivers, hm] at hd
    | _ => simp_all
  | _ => simp_all

end Session

/-- The server announces `CreateStreams`, and the client hears it. -/
def Session.hearRun : List SessionEvent :=
  ServerTest.announceRun.map (fun e => .server (.test 0 e)) ++
    ([.lock, .lock, .read (.ok (.setState (.createStreams "c"))), .lock, .lock] : List ClientEvent).map .client

theorem setup_goes_on_one : ∃ w s t, Session.Created Server.startDecode "c" (uploadParams 1) 0 w ∧
    Run (Session.step Server.startDecode) (Session.Steady Server.startDecode "c") (Session.new w 0 "c" (uploadParams 1))
      Session.hearRun s ∧
    s.server.tests[0]? = some t ∧ s.Unstarted t ∧ s.Advances Server.startDecode "c" := by
  obtain ⟨w, s, hw, hrun, hp⟩ := Session.exists_session Server.startDecode (Session.Steady Server.startDecode "c")
    (Server.peer Server.startEnvelopes false) "c" (uploadParams 1) Session.hearRun
    (fun s => s.client.state.rank < State.running.rank) (by decide +kernel)
  simp only [decide_eq_true_eq] at hp
  obtain ⟨t, ht, -, -, -, hadvances⟩ := setup_goes_on (by decide) hw hrun
  exact ⟨w, s, t, hw, hrun, ht, .inr hp, hadvances (.inr hp)⟩

def Server.emptyEnvelopes : List ClientEnvelope :=
  [.clientMessage (.hello "c"), .clientMessage (.sendParameters (uploadParams 0))]

/-- Without streams to wait for, both ends wait for ever. -/
theorem setup_stuck : ∃ w es s t,
    Session.Created (decodeAmong ClientEnvelope.encode Server.emptyEnvelopes) "c" (uploadParams 0) 0 w ∧
    Run (Session.step (decodeAmong ClientEnvelope.encode Server.emptyEnvelopes))
      (Session.Smooth (decodeAmong ClientEnvelope.encode Server.emptyEnvelopes) "c")
      (Session.new w 0 "c" (uploadParams 0)) es s ∧
    s.server.tests[0]? = some t ∧ s.Unstarted t ∧
    ¬ s.Advances (decodeAmong ClientEnvelope.encode Server.emptyEnvelopes) "c" := by
  obtain ⟨w, s, hw, hrun, hp⟩ := Session.exists_session (decodeAmong ClientEnvelope.encode Server.emptyEnvelopes)
    (Session.Smooth (decodeAmong ClientEnvelope.encode Server.emptyEnvelopes) "c")
    (Server.peer Server.emptyEnvelopes false) "c" (uploadParams 0) Session.hearRun
    (fun s => s.test = 0 ∧ (s.server.tests[0]?).any (fun t => s.Stuck t ∧ t.state.rank < State.running.rank))
    (by decide +kernel)
  simp only [Option.any_eq_true, decide_eq_true_eq] at hp
  obtain ⟨htest, t, ht, hstuck, hrank⟩ := hp
  exact ⟨w, _, s, t, hw, hrun, ht, .inl hrank, hstuck.not_advances (htest ▸ ht)⟩

end Netperf
