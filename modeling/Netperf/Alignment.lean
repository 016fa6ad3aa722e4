import Netperf.Session
import Netperf.Isolation
/-!
# The order of data connections

The connections a test is handed are the first ones its client made, in that
order, whatever third parties do in between: a connection without the cookie
does not pass the check, and the client makes the next one only when the last
one has been welcomed, which the accept loop hands over before it accepts
another.
-/

namespace Netperf

open Frames Runs Lists

/-! ## The accept loop -/

namespace Server
variable {decode : List UInt8 → Option ClientEnvelope} {s u : Server} {e : NetEvent}

theorem conns_step (h : Step decode s e u) :
    u.conns = s.conns ∨ ∃ socket, e = .accept socket ∧ u.conns = s.conns ++ [socket] ∧ s.pc = .accepting ∧
      u.pc.conn = some s.conns.length := by
  cases h with
  | accept hpc | acceptIdle hpc => exact .inr ⟨_, rfl, rfl, hpc, rfl⟩
  | handed _ hv =>
    obtain ⟨-, -, -, -, -, -, rfl⟩ := handOver_eq hv
    exact .inl rfl
  | _ => exact .inl rfl

theorem conns_kept (h : Step decode s e u) {c : Nat} {socket : Source} (hc : s.conns[c]? = some socket) :
    u.conns[c]? = some socket := by
  rcases conns_step h with hsame | ⟨socket', -, hnew, -⟩
  · rwa [hsame]
  · rw [hnew, List.getElem?_append_left (lt_of_getElem? hc), hc]

/-- A connection that the loop is done with does not come back. -/
theorem away_step (h : Step decode s e u) {c : Nat} (hlt : c < s.conns.length) (hc : s.pc.conn ≠ some c) :
    u.pc.conn ≠ some c := by
  rcases (conn_step h).2 with hnone | hsame | hnew
  · rw [hnone]
    simp
  · rwa [hsame]
  · rw [hnew, ne_eq, Option.some.injEq]
    omega

/-- What a step answers, and where it stands then. -/
theorem answer_cases (h : Step decode s e u) {c : Nat} {env : ServerEnvelope} (hm : (c, env) ∈ u.answers) :
    (c, env) ∈ s.answers ∨
      (env = .serverMessage .welcome ∧
        ((∃ k, s.pc = .welcomeData c k ∧ u.pc = .handing c k) ∨ ∃ cookie socket, s.pc = .welcome c cookie socket)) ∨
      (env = accessDenied ∧ ∃ held, s.pc = .denying c held) := by
  cases h with
  | welcomed hpc =>
    refine (List.mem_append.1 hm).imp_right (fun hm => .inl ?_)
    obtain ⟨rfl, rfl⟩ := Prod.mk.inj (List.mem_singleton.1 hm)
    exact ⟨rfl, .inl ⟨_, hpc, rfl⟩⟩
  | invited hpc =>
    refine (List.mem_append.1 hm).imp_right (fun hm => .inl ?_)
    obtain ⟨rfl, rfl⟩ := Prod.mk.inj (List.mem_singleton.1 hm)
    exact ⟨rfl, .inr ⟨_, _, hpc⟩⟩
  | @denied _ ok hpc | @deniedHeld _ _ ok hpc =>
    cases ok with
    | false => exact .inl hm
    | true =>
      refine (List.mem_append.1 hm).imp_right (fun hm => .inr ?_)
      obtain ⟨rfl, rfl⟩ := Prod.mk.inj (List.mem_singleton.1 hm)
      exact ⟨rfl, _, hpc⟩
  | handed _ hv =>
    obtain ⟨_, _, -, -, -, -, rfl⟩ := handOver_eq hv
    exact .inl hm
  | _ => exact .inl hm

/-- Answers go to the connection at hand. -/
theorem answers_step (h : Step decode s e u) {c : Nat} {env : ServerEnvelope} (hm : (c, env) ∈ u.answers) :
    (c, env) ∈ s.answers ∨ s.pc.conn = some c := by
  rcases answer_cases h hm with hm | ⟨-, ⟨_, hpc, -⟩ | ⟨_, _, hpc⟩⟩ | ⟨-, _, hpc⟩
  · exact .inl hm
  all_goals exact .inr (by simp [hpc, AcceptPc.conn])

theorem answered_reach (h : Reach (step decode) init s) : ∀ c env, (c, env) ∈ s.answers → c < s.conns.length := by
  obtain ⟨es, h⟩ := h
  induction h with
  | nil => simp [init]
  | snoc h _ hs ih =>
    intro c env hm
    have hle := (conn_step (step_cases hs)).1
    rcases answers_step (step_cases hs) hm with hm | hpc
    · exact (ih c env hm).trans_le hle
    · have hlen := (wired_reach h.reach).conn c hpc
      omega

/-- A data connection is welcomed right before it is handed over. -/
theorem welcome_step (h : Step decode s e u) {c : Nat} (hm : (c, .serverMessage .welcome) ∈ u.answers) :
    (c, .serverMessage .welcome) ∈ s.answers ∨ s.pc.negotiating = true ∨ ∃ k, u.pc = .handing c k := by
  rcases answer_cases h hm with hm | ⟨-, ⟨k, -, hpc⟩ | ⟨_, _, hpc⟩⟩ | ⟨henv, -⟩
  · exact .inl hm
  · exact .inr (.inr ⟨k, hpc⟩)
  · exact .inr (.inl (by simp [hpc, AcceptPc.negotiating]))
  · simp [accessDenied] at henv

theorem handing_step (h : Step decode s e u) {c k : Nat} (hpc : s.pc = .handing c k) :
    u.pc = .handing c k ∨ u.pc = .accepting ∨ u.pc = .returned := by
  cases h <;> simp_all [fail]

theorem returned_stays (h : Step decode s e u) (hpc : s.pc = .returned) : u.pc = .returned := by
  cases h <;> simp_all

/-- What passes the check stays so until it is handed over. -/
theorem passed_origin (h : Step decode s e u) {c k : Nat} (hp : u.pc.passed = some (c, k)) :
    s.pc.passed = some (c, k) ∨ ∃ cookie socket rest, s.pc = .helloData c k cookie ∧ s.conns[c]? = some socket ∧
      readCookie decode socket = .ok cookie rest := by
  cases h with
  | @matched c' k' cookie socket rest hpc hconn hread =>
    obtain ⟨rfl, rfl⟩ : c' = c ∧ k' = k := by simpa [AcceptPc.passed] using hp
    exact .inr ⟨cookie, socket, rest, hpc, hconn, hread⟩
  | welcomed hpc => exact .inl (by simpa [hpc, AcceptPc.passed] using hp)
  | test => exact .inl hp
  | _ => simp [AcceptPc.passed, fail] at hp

/-- A test gets one more connection when it is handed one, and only then. -/
theorem connections_server_step (h : Step decode s e u) (hw : Wired s) {k : Nat} {t t' : ServerTest}
    (ht : s.tests[k]? = some t) (ht' : u.tests[k]? = some t') :
    (t'.connections = t.connections ∧ ∀ c, s.pc = .handing c k → u.pc ≠ .accepting) ∨
      ∃ c, s.pc = .handing c k ∧ u.pc = .accepting ∧ t.returned = false ∧ t'.connections = t.connections ++ [c] := by
  by_cases hpc : ∃ c, s.pc = .handing c k ∧ u.pc = .accepting
  · obtain ⟨c, hpc, hu⟩ := hpc
    refine .inr ⟨c, hpc, hu, ?_⟩
    cases h with
    | @handed v c' j hpc' hv =>
      obtain ⟨rfl, rfl⟩ : c' = c ∧ j = k := by simpa [hpc] using hpc'.symm
      obtain ⟨i, t₀, hi, ht₀, hr, -, rfl⟩ := handOver_eq hv
      have hin := (hw.target j (by simp [hpc, AcceptPc.target])).1
      rw [hw.same, hin, Option.some.injEq] at hi
      subst hi
      rw [ht, Option.some.injEq] at ht₀
      subst ht₀
      rcases getElem?_modify_iff.1 ht' with ⟨-, v, hv, rfl⟩ | ⟨hne, -⟩
      · rcases (getElem?_set_iff (lt_of_getElem? ht)).1 hv with ⟨-, rfl⟩ | ⟨hne, -⟩
        · exact ⟨hr, by simp [ServerTest.connections]⟩
        · exact absurd rfl hne
      · exact absurd rfl hne
    | _ => simp_all [fail]
  · refine .inl ⟨?_, fun c hc hu => hpc ⟨c, hc, hu⟩⟩
    rcases tests_step h hw ht' with ⟨t₀, ht₀, rfl | ⟨ev, hev, hst⟩⟩ | ⟨hnone, -⟩
    · rw [ht, Option.some.injEq] at ht₀
      rw [ht₀]
    · rw [ht, Option.some.injEq] at ht₀
      subst ht₀
      rw [ServerTest.connections_step (ServerTest.step_cases hev)]
      cases ev with
      | offer c => exact absurd ⟨c, hst.offer (ofAcceptLoop_of_step h)⟩ hpc
      | _ => simp [ServerEvent.offered]
    · rw [ht] at hnone
      cases hnone

end Server

/-! ## The client -/

theorem ClientTest.streams_step {t u : ClientTest} {e : ClientEvent} (h : Step t e u) :
    u.workers.map Worker.stream = t.workers.map Worker.stream ++ (match e with
      | .connect (some c) => [c]
      | _ => []) := by
  cases h with
  | startLoad | finish => simp [TestController.broadcast_streams]
  | worker hw =>
    obtain ⟨w, w', hg, hs, hws, -⟩ := TestController.workerStep_spec hw
    simp [hws, TestController.set_map hg (Worker.step_spec hs).2.1]
  | connected => simp [TestController.createAndRegisterStreamWorker]
  | _ => simp

/-! ## The session -/

namespace Session
variable {decode : List UInt8 → Option ClientEnvelope} {s u : Session} {e : SessionEvent} {cookie : String}
  {t t' : ServerTest}

/-- The `Hello` of a connection carries this cookie. -/
def names (decode : List UInt8 → Option ClientEnvelope) (socket : Source) (cookie : String) : Bool :=
  match readCookie decode socket with
  | .ok named _ => named = cookie
  | _ => false

/-- The data connections the client has made, in order. -/
def dialed (s : Session) : List Nat :=
  s.client.workers.map Worker.stream ++ (match s.dial with
    | .accepted c => [c]
    | _ => [])

/-- Third parties do not have the cookie. -/
def Foreign (decode : List UInt8 → Option ClientEnvelope) (cookie : String) : SessionEvent → Prop
  | .server (.accept socket) => names decode socket cookie = false
  | _ => True

/-- How far the connections of the client have come on the server: while its
test runs, all of them have been handed over, or all but the last one, which is
not welcomed yet or is being handed over. -/
structure Aligned (decode : List UInt8 → Option ClientEnvelope) (cookie : String) (s : Session) (t : ServerTest) :
    Prop where
  ascending : s.dialed.Pairwise (· < ·)
  known : ∀ c ∈ s.dialed, c < s.server.conns.length
  atHand : ∀ c socket, s.server.pc.conn = some c → s.server.conns[c]? = some socket →
    names decode socket cookie = true → s.dialed.getLast? = some c
  handed : t.connections <+: s.dialed
  passed : t.returned = false → ∀ c k, s.server.pc.passed = some (c, k) → t.connections ++ [c] = s.dialed
  live : t.returned = false → s.server.pc ≠ .returned → t.connections = s.dialed ∨
    ∃ c, t.connections ++ [c] = s.dialed ∧
      ((s.dial = .accepted c ∧ (c, .serverMessage .welcome) ∉ s.server.answers) ∨ ∃ k, s.server.pc = .handing c k)

/-- The client's connections only become more. -/
theorem dialed_step (h : Step decode s e u) :
    (u.dialed = s.dialed ∧ e ≠ .arrive) ∨ (e = .arrive ∧ u.dialed = s.dialed ++ [s.server.conns.length]) := by
  cases h with
  | server => exact .inl ⟨rfl, by simp⟩
  | @client ev t hne _ hs =>
    have hstreams := ClientTest.streams_step (ClientTest.step_cases hs)
    refine .inl ⟨?_, by simp⟩
    simp only [dialed, hstreams]
    cases ev with
    | connect c =>
      cases c with
      | none => simp
      | some c => exact absurd rfl (hne c)
    | _ => simp
  | connected hd _ hs =>
    have hstreams := ClientTest.streams_step (ClientTest.step_cases hs)
    exact .inl ⟨by simp [dialed, hstreams, hd], by simp⟩
  | dial _ hd => exact .inl ⟨by simp [dialed, hd], by simp⟩
  | arrive hd => exact .inr ⟨rfl, by simp [dialed, hd]⟩

/-- A connection that passes the check while the test runs is the client's last. -/
theorem Aligned.check {es : List NetEvent} (hi : Aligned decode cookie s t)
    (hrun : Run (Server.step decode) Any Server.init es s.server) (ht : s.server.tests[s.test]? = some t)
    (hcookie : t.cookie = cookie) (hphase : t.Phase) (hr : t.returned = false) {c k : Nat} {named : String}
    {socket : Source} {rest : Source} (hpc : s.server.pc = .helloData c k named)
    (hconn : s.server.conns[c]? = some socket) (hread : readCookie decode socket = .ok named rest) :
    t.connections ++ [c] = s.dialed := by
  have hw := Server.wired_reach hrun.reach
  -- it is checked for the running test
  have hk : k = s.test := by
    have hin := (hw.target k (by simp [hpc, AcceptPc.target])).1
    rw [hw.alive _ t ht hr, Option.some.injEq] at hin
    exact hin.symm
  subst hk
  obtain ⟨t₀, ht₀, hstate⟩ := hw.checking c _ named hpc
  rw [ht, Option.some.injEq] at ht₀
  subst ht₀
  have hnames : names decode socket cookie = true := by
    simp [names, hread, hphase.cookie hstate, hcookie]
  have hlast := hi.atHand c socket (by simp [hpc, AcceptPc.conn]) hconn hnames
  rcases hi.live hr (by simp [hpc]) with hall | ⟨c', hall, -⟩
  · -- it is in no test yet
    have hmem : c ∈ t.connections := hall ▸ List.mem_of_getLast? hlast
    exact absurd (by simp [hpc, AcceptPc.conn]) ((Server.authentic_run hrun).placed _ t c ht hmem).2
  · rw [← hall, List.getLast?_append_of_ne_nil _ (by simp)] at hlast
    obtain rfl : c' = c := by simpa using hlast
    exact hall

/-- The accept loop goes on, or some test does, while the client waits. -/
theorem Aligned.server {es : List NetEvent} (hi : Aligned decode cookie s t)
    (hrun : Run (Server.step decode) Any Server.init es s.server) (ht : s.server.tests[s.test]? = some t)
    (hcookie : t.cookie = cookie) (hphase : t.Phase) {ev : NetEvent} {v : Server}
    (hs : Server.Step decode s.server ev v) (hf : ∀ socket, ev = .accept socket → names decode socket cookie = false)
    (ht' : v.tests[s.test]? = some t') : Aligned decode cookie { s with server := v } t' := by
  have hw := Server.wired_reach hrun.reach
  have hle := (Server.conn_step hs).1
  have hconn := Server.connections_server_step hs hw ht ht'
  have hret : t'.returned = false → t.returned = false := by
    intro hr
    obtain ⟨t₀, ht₀, hcases⟩ := test_step hs hw ht
    rw [ht', Option.some.injEq] at ht₀
    subst ht₀
    rcases hcases with rfl | ⟨te, hte, -⟩
    · exact hr
    · exact ServerTest.returned_of_step (ServerTest.step_cases hte) hr
  refine ⟨hi.ascending, fun c hc => (hi.known c hc).trans_le hle, ?_, ?_, ?_, ?_⟩
  · intro c socket hc hsock hn
    rcases Server.conns_step hs with heq | ⟨sock, rfl, heq, -, hnew⟩
    · -- the connection at hand is the same one
      simp only [heq] at hsock
      refine hi.atHand c socket ?_ hsock hn
      rcases (Server.conn_step hs).2 with hnone | hsame | hnew
      · simp [hnone] at hc
      · exact hsame ▸ hc
      · rw [hnew, Option.some.injEq] at hc
        subst hc
        simp at hsock
    · rw [hnew, Option.some.injEq] at hc
      subst hc
      obtain rfl : sock = socket := by simpa [heq] using hsock
      rw [hf sock rfl] at hn
      cases hn
  · rcases hconn with ⟨hsame, -⟩ | ⟨c, hpc, -, hr, happ⟩
    · rw [hsame]
      exact hi.handed
    · rw [happ, hi.passed hr c s.test (by simp [hpc, AcceptPc.passed])]
      exact List.prefix_rfl
  · intro hr c k hp
    have hsame : t'.connections = t.connections := by
      rcases hconn with ⟨hsame, -⟩ | ⟨c', -, hu, -⟩
      · exact hsame
      · simp [hu, AcceptPc.passed] at hp
    rw [hsame]
    rcases Server.passed_origin hs hp with hp | ⟨named, socket, rest, hpc, hsock, hread⟩
    · exact hi.passed (hret hr) c k hp
    · exact hi.check hrun ht hcookie hphase (hret hr) hpc hsock hread
  · intro hr hu
    rcases hconn with ⟨hsame, hno⟩ | ⟨c, hpc, -, hr', happ⟩
    · have hspc : s.server.pc ≠ .returned := by
        intro hpc
        exact hu (Server.returned_stays hs hpc)
      rw [hsame]
      rcases hi.live (hret hr) hspc with hall | ⟨c, hall, ⟨hd, hnw⟩ | ⟨k, hpc⟩⟩
      · exact .inl hall
      · refine .inr ⟨c, hall, ?_⟩
        by_cases hm : (c, .serverMessage .welcome) ∈ v.answers
        · rcases Server.welcome_step hs hm with hm | hneg | hk
          · exact absurd hm hnw
          · rw [hw.idle hneg _ t ht] at hret
            cases hret hr
          · exact .inr hk
        · exact .inl ⟨hd, hm⟩
      · rcases Server.handing_step hs hpc with hk | hacc | hret'
        · exact .inr ⟨c, hall, .inr ⟨k, hk⟩⟩
        · -- it would have been handed over
          have hk : k = s.test := by
            have hin := (hw.target k (by simp [hpc, AcceptPc.target])).1
            rw [hw.alive _ t ht (hret hr), Option.some.injEq] at hin
            exact hin.symm
          exact absurd hacc (hno c (hk ▸ hpc))
        · exact absurd hret' hu
    · exact .inl (happ.trans (hi.passed hr' c s.test (by simp [hpc, AcceptPc.passed])))

/-- The server accepts the client's next connection. All earlier ones have been
handed over then. -/
theorem Aligned.arrive {es : List NetEvent} (hi : Aligned decode cookie s t)
    (hrun : Run (Server.step decode) Any Server.init es s.server) (ht : s.server.tests[s.test]? = some t)
    {socket : Source} {v : Server} (hd : s.dial = .pending socket)
    (hs : Server.Step decode s.server (.accept socket) v) (ht' : v.tests[s.test]? = some t') :
    Aligned decode cookie { s with server := v, dial := .accepted s.server.conns.length } t' := by
  have hw := Server.wired_reach hrun.reach
  have hdialed : ({ s with server := v, dial := .accepted s.server.conns.length } : Session).dialed =
      s.dialed ++ [s.server.conns.length] := by simp [dialed, hd]
  have hshape : t' = t ∧ v.conns = s.server.conns ++ [socket] ∧ v.answers = s.server.answers ∧
      v.pc.passed = none ∧ s.server.pc = .accepting ∧ v.pc.conn = some s.server.conns.length := by
    cases hs with
    | accept hpc | acceptIdle hpc =>
      exact ⟨Option.some.inj (ht'.symm.trans ht), rfl, rfl, rfl, hpc, rfl⟩
  obtain ⟨rfl, hconns, hanswers, hpassed, hacc, hat⟩ := hshape
  refine ⟨?_, ?_, ?_, ?_, by simp [hpassed], fun hr _ => .inr ?_⟩
  · rw [hdialed, List.pairwise_append]
    refine ⟨hi.ascending, List.pairwise_singleton _ _, fun c hc b hb => ?_⟩
    rw [List.mem_singleton.1 hb]
    exact hi.known c hc
  · intro c hc
    rw [hdialed] at hc
    simp only [hconns, List.length_append, List.length_singleton]
    rcases List.mem_append.1 hc with hc | hc
    · exact Nat.lt_succ_of_lt (hi.known c hc)
    · rw [List.mem_singleton.1 hc]
      exact Nat.lt_succ_self _
  · intro c sock hc _ _
    rw [hat] at hc
    rw [hdialed, List.getLast?_append_of_ne_nil _ (by simp), ← hc]
    rfl
  · rw [hdialed]
    exact hi.handed.trans (List.prefix_append _ _)
  · have hall : t'.connections = s.dialed := by
      rcases hi.live hr (by simp [hacc]) with hall | ⟨c, -, ⟨hd', -⟩ | ⟨k, hpc⟩⟩
      · exact hall
      · rw [hd] at hd'
        cases hd'
      · rw [hacc] at hpc
        cases hpc
    refine ⟨s.server.conns.length, by rw [hdialed, hall], .inl ⟨rfl, fun hm => ?_⟩⟩
    rw [hanswers] at hm
    exact Nat.lt_irrefl _ (Server.answered_reach hrun.reach _ _ hm)

/-- The client goes on, with the connections it has. -/
theorem Aligned.client (hi : Aligned decode cookie s t) {c : ClientTest} {d : Dial}
    (hdialed : ({ s with client := c, dial := d } : Session).dialed = s.dialed)
    (hd : ∀ n, s.dial = .accepted n → (n, .serverMessage .welcome) ∉ s.server.answers → d = .accepted n) :
    Aligned decode cookie { s with client := c, dial := d } t := by
  refine ⟨hdialed ▸ hi.ascending, hdialed ▸ hi.known, hdialed ▸ hi.atHand, hdialed ▸ hi.handed,
    hdialed ▸ hi.passed, fun hr hu => ?_⟩
  rw [hdialed]
  apply (hi.live hr hu).imp_right
  rintro ⟨n, hall, ⟨hn, hnw⟩ | hk⟩
  · exact ⟨n, hall, .inl ⟨hd n hn hnw, hnw⟩⟩
  · exact ⟨n, hall, .inr hk⟩

theorem aligned_step {es : List NetEvent} (h : Step decode s e u) (hf : Foreign decode cookie e)
    (hrun : Run (Server.step decode) Any Server.init es s.server) (ht : s.server.tests[s.test]? = some t)
    (ht' : u.server.tests[s.test]? = some t') (hcookie : t.cookie = cookie) (hphase : t.Phase)
    (hi : Aligned decode cookie s t) : Aligned decode cookie u t' := by
  have hdialed := dialed_step h
  cases h with
  | server _ hs =>
    refine hi.server hrun ht hcookie hphase (Server.step_cases hs) ?_ ht'
    rintro socket rfl
    exact hf
  | arrive hd hs => exact hi.arrive hrun ht hd (Server.step_cases hs) ht'
  | client =>
    obtain rfl := Option.some.inj (ht.symm.trans ht')
    exact hi.client (by simpa using hdialed) (fun _ h _ => h)
  | connected hd hm =>
    obtain rfl := Option.some.inj (ht.symm.trans ht')
    refine hi.client (by simpa using hdialed) (fun n hn hnw => ?_)
    rw [hd, Dial.accepted.injEq] at hn
    exact absurd (hn ▸ hm) hnw
  | dial _ hd =>
    obtain rfl := Option.some.inj (ht.symm.trans ht')
    refine hi.client (by simpa using hdialed) (fun n hn _ => ?_)
    rw [hd] at hn
    cases hn

end Session

end Netperf
