import Netperf.Directions
import Netperf.Handling
/-!
# From a connection to a test

`run_client` up to its controller, against the accept loop. Whether the client
is welcomed is decided when its connection is accepted: it is if no test is in
flight then, whatever the tests, the workers and third parties do until the
loop accepts the next connection.
-/

namespace Netperf

open Frames Runs

/-! ## The client (`opts.rs`, `data.rs`, `client.rs`) -/

structure ClientOpts where
  length : Option Nat
  socketBuffers : Option Nat
  time : UInt64
  parallel : UInt16
  bidir : Bool
  reverse : Bool
  latency : Bool
deriving DecidableEq

def defaultBlockSize : Nat := 2 * mb

/-- `CARGO_PKG_VERSION` -/
def packageVersion : String := "0.2.9"

def TestParameters.fromOpts (opts : ClientOpts) (defaultBlockSize : Nat) : TestParameters :=
  { direction := if opts.bidir then .bidirectional else if opts.reverse then .serverToClient else .clientToServer
    omitSeconds := 0
    timeSeconds := opts.time
    parallel := opts.parallel
    blockSize := opts.length.getD defaultBlockSize
    clientVersion := packageVersion
    socketBuffers := opts.socketBuffers
    measureLatency := opts.latency }

/-- What `run_client` has sent when its controller starts or it has failed. -/
structure Opening where
  sent : List UInt8
  outcome : Read ClientTest

/-- `run_client` up to its controller, on a connection that can be written;
`back` is what arrives on it. Any message of the server is taken for a welcome. -/
def runClient (encode : ClientEnvelope → List UInt8) (decode : List UInt8 → Option ServerEnvelope) (opts : ClientOpts)
    (cookie : String) (back : Source) : Option Opening :=
  (clientSendMessage encode (.hello cookie)).bind (fun hello =>
    let params := TestParameters.fromOpts opts defaultBlockSize
    match clientReadMessage decode back with
    | .ok _ rest =>
      (clientSendMessage encode (.sendParameters params)).map (fun parameters =>
        ⟨hello ++ parameters, .ok (ClientTest.new cookie params) rest⟩)
    | .err e rest => some ⟨hello, .err e rest⟩
    | .pending => some ⟨hello, .pending⟩
    | .panic => some ⟨hello, .panic⟩)

/-! ## The accept loop -/

/-- The connection carries a client's `Hello`, and its parameters if it is welcomed. -/
def Calls (decode : List UInt8 → Option ClientEnvelope) (cookie : String) (params : TestParameters) (free : Bool)
    (socket : Source) : Prop :=
  ∃ rest, readCookie decode socket = .ok cookie rest ∧
    (free = true → ∃ rest', readTestParameters decode rest = .ok params rest')

/-- What the loop answers a client. -/
def greeting (free : Bool) : ServerEnvelope := if free then .serverMessage .welcome else accessDenied

/-- Where the loop is while it has the client's connection at hand; `k` is the
number of tests there were before. -/
def AcceptPc.Attends (decode : List UInt8 → Option ClientEnvelope) (cookie : String) (params : TestParameters)
    (free : Bool) (k : Nat) : AcceptPc → Prop
  | .hello _ => free = true
  | .welcome _ named rest | .params _ named rest =>
    free = true ∧ named = cookie ∧ ∃ rest', readTestParameters decode rest = .ok params rest'
  | .locking _ j => free = false ∧ j < k
  | .helloData _ _ expected => free = false ∧ expected ≠ cookie
  | .denying _ _ => free = false
  | _ => False

/-- What has been answered by then. -/
def AcceptPc.greeted : AcceptPc → List ServerEnvelope
  | .params _ _ _ => [.serverMessage .welcome]
  | _ => []

namespace Server
variable {decode : List UInt8 → Option ClientEnvelope} {s u v : Server} {e : NetEvent} {es : List NetEvent}
  {cookie : String} {params : TestParameters} {free : Bool} {c k : Nat} {socket : Source}

def answersTo (s : Server) (c : Nat) : List ServerEnvelope := (s.answers.filter (fun a => a.1 = c)).map Prod.snd

/-- The timer of the negotiation expired, or an answer could not be written,
while the connection was at hand. -/
def Lost (decode : List UInt8 → Option ClientEnvelope) (v : Server) (c : Nat) (es : List NetEvent) : Prop :=
  ∃ pre e post w, es = pre ++ e :: post ∧ Run (step decode) Any v pre w ∧ w.pc.conn = some c ∧
    (e = .timeout ∨ e = .write false)

theorem Lost.snoc (h : Lost decode v c es) (e : NetEvent) : Lost decode v c (es ++ [e]) := by
  obtain ⟨pre, e', post, w, rfl, h⟩ := h
  exact ⟨pre, e', post ++ [e], w, by simp, h⟩

theorem Lost.last (h : Run (step decode) Any v es s) (hc : s.pc.conn = some c) (he : e = .timeout ∨ e = .write false) :
    Lost decode v c (es ++ [e]) := ⟨es, e, [], s, rfl, h, hc, he⟩

/-- The client has its answer, and if it is welcome its test was made. -/
structure Greeted (decode : List UInt8 → Option ClientEnvelope) (cookie : String) (params : TestParameters)
    (free : Bool) (c k : Nat) (s : Server) : Prop where
  answer : s.answersTo c = [greeting free]
  created : free = true → ∃ w, Session.Created decode cookie params k w ∧ Reach (step decode) w s

/-- How far connection `c`, accepted in state `v`, has come. -/
structure Attended (decode : List UInt8 → Option ClientEnvelope) (cookie : String) (params : TestParameters)
    (free : Bool) (c k : Nat) (socket : Source) (v : Server) (es : List NetEvent) (s : Server) : Prop where
  conn : s.conns[c]? = some socket
  count : k ≤ s.tests.length
  others : free = false → ∀ i < k, ∀ t, s.tests[i]? = some t → t.cookie ≠ cookie
  hand : s.pc.conn = some c → s.pc.Attends decode cookie params free k ∧ s.answersTo c = s.pc.greeted ∧
    (free = true → s.tests.length = k) ∧ es.countP NetEvent.ofHandling + s.pc.left ≤ 4
  away : s.pc.conn ≠ some c → Greeted decode cookie params free c k s ∨
    (Lost decode v c es ∧ (s.answersTo c = [] ∨ (free = true ∧ s.answersTo c = [.serverMessage .welcome])))

/-! ## What a step does to the connection -/

theorem answersTo_append (s : Server) (c c' : Nat) (env : ServerEnvelope) (pc : AcceptPc) :
    ({ s with answers := s.answers ++ [(c', env)], pc } : Server).answersTo c =
      s.answersTo c ++ if c' = c then [env] else [] := by
  unfold answersTo
  dsimp only
  rw [List.filter_append, List.map_append]
  congr 1
  by_cases h : c' = c <;> simp [h]

/-- Only the connection at hand is answered. -/
theorem answersTo_step (h : Step decode s e u) (hc : s.pc.conn ≠ some c) : u.answersTo c = s.answersTo c := by
  cases h with
  | welcomed hpc | invited hpc =>
    rw [hpc, AcceptPc.conn, ne_eq, Option.some.injEq] at hc
    rw [answersTo_append, if_neg hc, List.append_nil]
  | @denied _ ok hpc | @deniedHeld _ _ ok hpc =>
    rw [hpc, AcceptPc.conn, ne_eq, Option.some.injEq] at hc
    cases ok with
    | false => rfl
    | true =>
      unfold answersTo
      simp [hc]
  | handed _ hv =>
    obtain ⟨_, _, -, -, -, -, rfl⟩ := handOver_eq hv
    rfl
  | _ => rfl

/-- The tests keep their cookies. -/
theorem cookies_kept (h : Step decode s e u) (hw : Wired s) {i : Nat} (hi : i < s.tests.length) {t : ServerTest}
    (ht : u.tests[i]? = some t) : ∃ t', s.tests[i]? = some t' ∧ t.cookie = t'.cookie := by
  rcases tests_step h hw ht with ⟨t', ht', rfl | ⟨ev, hev, -⟩⟩ | ⟨hnone, -⟩
  · exact ⟨t, ht', rfl⟩
  · exact ⟨t', ht', ServerTest.cookie_of_step (ServerTest.step_cases hev)⟩
  · rw [List.getElem?_eq_getElem hi] at hnone
    cases hnone

/-- What holds while the connection is at hand. -/
def Held (decode : List UInt8 → Option ClientEnvelope) (cookie : String) (params : TestParameters) (free : Bool)
    (c k : Nat) (es : List NetEvent) (s : Server) : Prop :=
  s.pc.Attends decode cookie params free k ∧ s.answersTo c = s.pc.greeted ∧ (free = true → s.tests.length = k) ∧
    es.countP NetEvent.ofHandling + s.pc.left ≤ 4

/-- What holds when the loop is done with it. -/
def Released (decode : List UInt8 → Option ClientEnvelope) (cookie : String) (params : TestParameters) (free : Bool)
    (c k : Nat) (v : Server) (es : List NetEvent) (s : Server) : Prop :=
  Greeted decode cookie params free c k s ∨
    (Lost decode v c es ∧ (s.answersTo c = [] ∨ (free = true ∧ s.answersTo c = [.serverMessage .welcome])))

/-- The loop keeps the connection at hand, or is done with it. -/
theorem hand_step (hrun : Run (step decode) Any v es s) (hr : Reach (step decode) init s)
    (hs : s.step decode e = some u) (hcalls : Calls decode cookie params free socket)
    (hconn : s.conns[c]? = some socket)
    (hothers : free = false → ∀ i < k, ∀ t, s.tests[i]? = some t → t.cookie ≠ cookie) (hc : s.pc.conn = some c)
    (hi : Held decode cookie params free c k es s) :
    (u.pc.conn = some c ∧ Held decode cookie params free c k (es ++ [e]) u) ∨
      (u.pc.conn = none ∧ Released decode cookie params free c k v (es ++ [e]) u) := by
  obtain ⟨rest, hread, hparams⟩ := hcalls
  obtain ⟨ha, hans, hcount, hleft⟩ := hi
  have hstep := step_cases hs
  unfold Held
  rw [List.countP_append]
  cases hstep with
  | accept hpc | acceptIdle hpc => simp [hpc, AcceptPc.conn] at hc
  | welcomed hpc | unwelcomed hpc | handed hpc | refused hpc => simp [hpc, AcceptPc.Attends] at ha
  | @guarded c' j t expected hpc ht hl hstate =>
    simp only [hpc, AcceptPc.Attends, AcceptPc.conn, AcceptPc.greeted, AcceptPc.left, Option.some.injEq] at *
    obtain ⟨_, _, htest⟩ := test_reach hr _ _ ht
    have hexpected := (ServerTest.phase_reach htest).cookie hstate
    refine .inl ⟨hc, ⟨ha.1, ?_⟩, hans, fun hf => ?_, hleft⟩
    · rw [hexpected]
      exact hothers ha.1 j ha.2 t ht
    · rw [ha.1] at hf
      cases hf
  | @busy c' j t hpc =>
    simp only [hpc, AcceptPc.Attends, AcceptPc.conn, AcceptPc.greeted, AcceptPc.left, Option.some.injEq] at *
    exact .inl ⟨hc, ha.1, hans, hcount, Nat.le_of_succ_le (Nat.le_of_succ_le hleft)⟩
  | @matched c' j expected socket' rest' hpc hconn' hread' =>
    simp only [hpc, AcceptPc.Attends, AcceptPc.conn, Option.some.injEq] at *
    subst hc
    rw [hconn, Option.some.injEq] at hconn'
    subst hconn'
    rw [hread, Read.ok.injEq] at hread'
    exact absurd hread'.1.symm ha.2
  | @foreign c' j expected other socket' rest' hpc =>
    simp only [hpc, AcceptPc.Attends, AcceptPc.conn, AcceptPc.greeted, AcceptPc.left, Option.some.injEq] at *
    exact .inl ⟨hc, ha.1, hans, hcount, Nat.le_of_succ_le hleft⟩
  | @malformed c' j expected socket' hpc hconn' _ hno =>
    simp only [hpc, AcceptPc.conn, Option.some.injEq] at hc
    subst hc
    rw [hconn, Option.some.injEq] at hconn'
    subst hconn'
    exact absurd hread (hno _ _)
  | @named c' named socket' rest' hpc hconn' hread' =>
    simp only [hpc, AcceptPc.Attends, AcceptPc.conn, AcceptPc.greeted, AcceptPc.left, Option.some.injEq] at *
    subst hc
    rw [hconn, Option.some.injEq] at hconn'
    subst hconn'
    rw [hread, Read.ok.injEq] at hread'
    exact .inl ⟨rfl, ⟨ha, hread'.1.symm, hread'.2 ▸ hparams ha⟩, hans, hcount, hleft⟩
  | @unnamed c' socket' err rest' hpc hconn' hread' =>
    simp only [hpc, AcceptPc.conn, Option.some.injEq] at hc
    subst hc
    rw [hconn, Option.some.injEq] at hconn'
    subst hconn'
    rw [hread] at hread'
    cases hread'
  | @invited c' named socket' hpc =>
    simp only [hpc, AcceptPc.Attends, AcceptPc.conn, AcceptPc.greeted, AcceptPc.left, Option.some.injEq] at *
    refine .inl ⟨hc, ha, ?_, hcount, hleft⟩
    rw [answersTo_append, if_pos hc, hans]
    rfl
  | @uninvited c' named socket' hpc =>
    have hlost := Lost.last hrun hc (.inr rfl)
    simp only [hpc, AcceptPc.greeted] at hans
    exact .inr ⟨rfl, .inr ⟨hlost, .inl hans⟩⟩
  | @created c' named socket' params' rest' hpc hread' =>
    simp only [hpc, AcceptPc.Attends, AcceptPc.greeted] at ha hans
    obtain ⟨hf, rfl, rest'', hparams'⟩ := ha
    rw [hparams', Read.ok.injEq] at hread'
    obtain ⟨rfl, -⟩ := hread'
    refine .inr ⟨rfl, .inl ⟨?_, fun _ => ⟨_, ⟨s, hr, ?_, hcount hf, hs⟩, .refl⟩⟩⟩
    · rw [hf]
      exact hans
    · simp only [Session.asked, hpc, hparams']
  | @uncreated c' named socket' err rest' hpc hread' =>
    simp only [hpc, AcceptPc.Attends] at ha
    obtain ⟨-, -, rest'', hparams'⟩ := ha
    rw [hparams'] at hread'
    cases hread'
  | @timedOut c' named socket' hpc =>
    have hlost := Lost.last hrun hc (.inl rfl)
    simp only [hpc, AcceptPc.Attends, AcceptPc.greeted] at ha hans
    exact .inr ⟨rfl, .inr ⟨hlost, .inr ⟨ha.1, hans⟩⟩⟩
  | @denied c' ok hpc =>
    have hlost : ok = false → Lost decode v c (es ++ [.write ok]) := fun hok => Lost.last hrun hc (.inr (by rw [hok]))
    simp only [hpc, AcceptPc.Attends, AcceptPc.greeted, AcceptPc.conn, Option.some.injEq] at ha hans hc
    refine .inr ⟨rfl, ?_⟩
    cases ok with
    | false => exact .inr ⟨hlost rfl, .inl hans⟩
    | true =>
      refine .inl ⟨?_, fun hf => by rw [ha] at hf; cases hf⟩
      have hanswer := answersTo_append s c c' accessDenied .accepting
      rw [hans, if_pos hc] at hanswer
      rw [ha]
      exact hanswer
  | @deniedHeld c' j ok hpc =>
    have hlost : ok = false → Lost decode v c (es ++ [.write ok]) := fun hok => Lost.last hrun hc (.inr (by rw [hok]))
    simp only [hpc, AcceptPc.Attends, AcceptPc.greeted, AcceptPc.conn, Option.some.injEq] at ha hans hc
    refine .inr ⟨rfl, ?_⟩
    cases ok with
    | false => exact .inr ⟨hlost rfl, .inl hans⟩
    | true =>
      refine .inl ⟨?_, fun hf => by rw [ha] at hf; cases hf⟩
      have hrelease : (s.release j).answersTo c = s.answersTo c := rfl
      have hanswer := answersTo_append (s.release j) c c' accessDenied .accepting
      rw [hrelease, hans, if_pos hc] at hanswer
      rw [ha]
      exact hanswer
  | test hpc he ht hte =>
    exact .inl ⟨hc, ha, hans, fun hf => by rw [List.length_set, hcount hf], hleft⟩

theorem attended_step (hrun : Run (step decode) Any v es s) (hr : Reach (step decode) init s)
    (hs : s.step decode e = some u) (hcalls : Calls decode cookie params free socket)
    (hi : Attended decode cookie params free c k socket v es s) :
    Attended decode cookie params free c k socket v (es ++ [e]) u := by
  have hstep := step_cases hs
  have hw := wired_reach hr
  have hlt := Lists.lt_of_getElem? hi.conn
  refine ⟨conns_kept hstep hi.conn, hi.count.trans (tests_length hstep), fun hf i hik t ht => ?_, fun hc => ?_, fun hc => ?_⟩
  · obtain ⟨t', ht', hsame⟩ := cookies_kept hstep hw (hik.trans_le hi.count) ht
    rw [hsame]
    exact hi.others hf i hik t' ht'
  · by_cases hbefore : s.pc.conn = some c
    · rcases hand_step hrun hr hs hcalls hi.conn hi.others hbefore (hi.hand hbefore) with ⟨-, h⟩ | ⟨hnone, -⟩
      · exact h
      · rw [hnone] at hc
        cases hc
    · exact absurd hc (away_step hstep hlt hbefore)
  · by_cases hbefore : s.pc.conn = some c
    · rcases hand_step hrun hr hs hcalls hi.conn hi.others hbefore (hi.hand hbefore) with ⟨hsame, -⟩ | ⟨-, h⟩
      · exact absurd hsame hc
      · exact h
    · have hanswers := answersTo_step hstep hbefore
      rcases hi.away hbefore with ⟨ha, hcreated⟩ | ⟨hlost, ha⟩
      · refine .inl ⟨hanswers.trans ha, fun hf => ?_⟩
        obtain ⟨w, hw, hreach⟩ := hcreated hf
        exact ⟨w, hw, hreach.next hs⟩
      · rw [← hanswers] at ha
        exact .inr ⟨hlost.snoc e, ha⟩

/-! ## From the connection on -/

theorem attended_accept (hr : Reach (step decode) init s) (hs : s.step decode (.accept socket) = some v)
    (hfresh : ∀ t ∈ s.tests, t.cookie ≠ cookie) :
    Attended decode cookie params s.upgrade.isNone s.conns.length s.tests.length socket v [] v := by
  have hnew : s.answersTo s.conns.length = [] := by
    unfold answersTo
    rw [List.map_eq_nil_iff, List.filter_eq_nil_iff]
    rintro ⟨c, env⟩ hm
    have hlt := answered_reach hr c env hm
    simp only [decide_eq_true_eq]
    omega
  have hothers : ∀ i < s.tests.length, ∀ t, s.tests[i]? = some t → t.cookie ≠ cookie :=
    fun i _ t ht => hfresh t (List.mem_of_getElem? ht)
  cases step_cases hs with
  | accept hpc hup =>
    obtain ⟨-, hlive⟩ := upgrade_eq_some hup
    obtain ⟨t, ht, -⟩ := (Option.any_eq_true _ _).1 hlive
    refine ⟨by simp, Nat.le_refl _, fun _ => hothers, fun _ => ⟨⟨by rw [hup]; rfl, Lists.lt_of_getElem? ht⟩, hnew, ?_, ?_⟩,
      fun hc => absurd rfl hc⟩
    · simp [hup]
    · simp [AcceptPc.left]
  | acceptIdle hpc hup =>
    refine ⟨by simp, Nat.le_refl _, fun _ => hothers, fun _ => ⟨by rw [hup]; rfl, hnew, fun _ => rfl, ?_⟩,
      fun hc => absurd rfl hc⟩
    simp [AcceptPc.left]

theorem attended_run (hr : Reach (step decode) init s) (hs : s.step decode (.accept socket) = some v)
    (hfresh : ∀ t ∈ s.tests, t.cookie ≠ cookie) (hcalls : Calls decode cookie params s.upgrade.isNone socket)
    (h : Run (step decode) Any v es u) :
    Attended decode cookie params s.upgrade.isNone s.conns.length s.tests.length socket v es u := by
  induction h with
  | nil => exact attended_accept hr hs hfresh
  | snoc h _ hstep ih => exact attended_step h ((hr.next hs).trans h.reach) hstep hcalls ih

/-- While the connection is at hand the loop has a step to take. -/
theorem Held.enabled (hi : Held decode cookie params free c k es s) (hw : Wired s) (hcalls : Calls decode cookie params free socket)
    (hconn : s.conns[c]? = some socket) (hc : s.pc.conn = some c) :
    ∃ e, NetEvent.ofHandling e = true ∧ (s.step decode e).isSome = true := by
  obtain ⟨rest, hread, -⟩ := hcalls
  have ha := hi.1
  cases hpc : s.pc with
  | accepting | returned => simp [hpc, AcceptPc.conn] at hc
  | welcomeData c' j | handing c' j => simp [hpc, AcceptPc.Attends] at ha
  | locking c' j =>
    obtain ⟨-, hj⟩ := hw.target j (by simp [hpc, AcceptPc.target])
    have ht := List.getElem?_eq_getElem hj
    have hl : s.tests[j].locked = false := by
      by_contra hl
      have hheld := (hw.locks j _ ht).1 (by simpa using hl)
      simp [hpc, AcceptPc.held] at hheld
    refine ⟨.lock, rfl, ?_⟩
    simp only [step, hpc, ht, hl]
    cases s.tests[j].state <;> simp
  | helloData c' j expected =>
    simp only [hpc, AcceptPc.conn, Option.some.injEq] at hc
    refine ⟨.read, rfl, ?_⟩
    simp only [step, hpc, hc, hconn, hread]
    split <;> rfl
  | hello c' =>
    simp only [hpc, AcceptPc.conn, Option.some.injEq] at hc
    exact ⟨.read, rfl, by simp [step, hpc, hc, hconn, hread]⟩
  | denying c' held => exact ⟨.write true, rfl, by simp [step, hpc]⟩
  | welcome c' named socket' => exact ⟨.write true, rfl, by simp [step, hpc]⟩
  | params c' named socket' => exact ⟨.timeout, rfl, by simp [step, hpc]⟩

end Server

/-! ## Both ends -/

section
variable {encodeC : ClientEnvelope → List UInt8} {decodeC : List UInt8 → Option ClientEnvelope}
  {encodeS : ServerEnvelope → List UInt8} {decodeS : List UInt8 → Option ServerEnvelope} {cookie : String}
  {params : TestParameters} {hello parameters : List UInt8} {free : Bool} {socket : Source}

/-- A message that the other end's reader takes. -/
structure Carries {α : Type} (encode : α → List UInt8) (decode : List UInt8 → Option α) (m : α) : Prop where
  decodes : decode (encode m) = some m
  fits : (encode m).length ≤ maxControlMessage

/-- The server reads what the client sends. -/
theorem calls_of_bytes (hc : Carries encodeC decodeC (.clientMessage (.hello cookie)))
    (hp : Carries encodeC decodeC (.clientMessage (.sendParameters params)))
    (hhello : clientSendMessage encodeC (.hello cookie) = some hello)
    (hparams : clientSendMessage encodeC (.sendParameters params) = some parameters)
    (hbytes : ∃ more, socket.bytes = hello ++ more ∧ (free = true → ∃ back, more = parameters ++ back)) :
    Calls decodeC cookie params free socket := by
  obtain ⟨more, hmore, hrest⟩ := hbytes
  rw [clientSendMessage, sendControlMessage_of_le hc.fits, Option.some.injEq] at hhello
  rw [clientSendMessage, sendControlMessage_of_le hp.fits, Option.some.injEq] at hparams
  subst hhello hparams
  obtain ⟨rest, hb, -, hread⟩ := readMessage_frame ClientEnvelope.result hc.decodes hc.fits socket hmore
  refine ⟨rest, by simp [readCookie, serverReadMessage, hread, ClientEnvelope.result], fun hf => ?_⟩
  obtain ⟨back, rfl⟩ := hrest hf
  obtain ⟨rest', -, -, hread'⟩ := readMessage_frame ClientEnvelope.result hp.decodes hp.fits rest hb
  exact ⟨rest', by simp [readTestParameters, serverReadMessage, hread', ClientEnvelope.result]⟩

/-- What the client makes of the answer. -/
structure Answered (encodeC : ClientEnvelope → List UInt8) (decodeS : List UInt8 → Option ServerEnvelope)
    (opts : ClientOpts) (cookie : String) (free : Bool) (hello parameters : List UInt8) (back : Source)
    (later : List UInt8) : Prop where
  welcomed : free = true → ∃ rest, rest.bytes = later ∧ runClient encodeC decodeS opts cookie back =
    some ⟨hello ++ parameters, .ok (ClientTest.new cookie (.fromOpts opts defaultBlockSize)) rest⟩
  denied : free = false → ∃ rest, runClient encodeC decodeS opts cookie back =
    some ⟨hello, .err (.server (.accessDenied "Test already in-flight")) rest⟩

theorem answered_of_bytes {opts : ClientOpts} (ha : Carries encodeS decodeS (greeting free))
    (hhello : clientSendMessage encodeC (.hello cookie) = some hello)
    (hparams : clientSendMessage encodeC (.sendParameters (.fromOpts opts defaultBlockSize)) = some parameters)
    {back : Source} {later : List UInt8} (hback : back.bytes = frame (encodeS (greeting free)) ++ later) :
    Answered encodeC decodeS opts cookie free hello parameters back later := by
  obtain ⟨rest, hb, -, hread⟩ := readMessage_frame ServerEnvelope.result ha.decodes ha.fits back hback
  constructor
  · rintro rfl
    refine ⟨rest, hb, ?_⟩
    simp [runClient, hhello, clientReadMessage, hread, greeting, ServerEnvelope.result, hparams]
  · rintro rfl
    refine ⟨rest, ?_⟩
    simp [runClient, hhello, clientReadMessage, hread, greeting, accessDenied, ServerEnvelope.result]

end

/-- A client with a new cookie connects to the server, in any reachable state
and whatever happens from then on. If no test is in flight at that moment it is
welcomed, otherwise it is denied access, and gets no other answer. While its
connection is at hand the loop has a step to take, and takes at most four. After
that the answer is given, and to a welcome client's parameters and cookie the
test has been made that its controller then starts with, unless an answer could
not be written or the timer expired; and what the client has sent is what the
server has read. -/
theorem handshake (encodeC : ClientEnvelope → List UInt8) (decodeC : List UInt8 → Option ClientEnvelope)
    (encodeS : ServerEnvelope → List UInt8) (decodeS : List UInt8 → Option ServerEnvelope) (opts : ClientOpts)
    (cookie : String) {hello parameters : List UInt8} {socket : Source} {s v u : Server} {es : List NetEvent}
    (hc : Carries encodeC decodeC (.clientMessage (.hello cookie)))
    (hp : Carries encodeC decodeC (.clientMessage (.sendParameters (.fromOpts opts defaultBlockSize))))
    (ha : ∀ free, Carries encodeS decodeS (greeting free))
    (hhello : clientSendMessage encodeC (.hello cookie) = some hello)
    (hparams : clientSendMessage encodeC (.sendParameters (.fromOpts opts defaultBlockSize)) = some parameters)
    (hr : Reach (Server.step decodeC) Server.init s) (hfresh : ∀ t ∈ s.tests, t.cookie ≠ cookie)
    (hbytes : ∃ more, socket.bytes = hello ++ more ∧ (s.upgrade.isNone = true → ∃ back, more = parameters ++ back))
    (hs : s.step decodeC (.accept socket) = some v) (h : Run (Server.step decodeC) Any v es u) :
    (u.answersTo s.conns.length = [] ∨ u.answersTo s.conns.length = [greeting s.upgrade.isNone]) ∧
      (u.pc.conn = some s.conns.length → es.countP NetEvent.ofHandling + u.pc.left ≤ 4 ∧
        ∃ e, NetEvent.ofHandling e = true ∧ (u.step decodeC e).isSome = true) ∧
      (u.pc.conn ≠ some s.conns.length → Server.Greeted decodeC cookie (.fromOpts opts defaultBlockSize) s.upgrade.isNone
          s.conns.length s.tests.length u ∨ Server.Lost decodeC v s.conns.length es) ∧
      ∀ (back : Source) (later : List UInt8), back.bytes = frame (encodeS (greeting s.upgrade.isNone)) ++ later →
        Answered encodeC decodeS opts cookie s.upgrade.isNone hello parameters back later := by
  have hcalls := calls_of_bytes hc hp hhello hparams hbytes
  have hi := Server.attended_run hr hs hfresh hcalls h
  refine ⟨?_, fun hat => ?_, fun haway => ?_, fun back later hback => answered_of_bytes (ha _) hhello hparams hback⟩
  · by_cases hat : u.pc.conn = some s.conns.length
    · obtain ⟨hattends, hans, -⟩ := hi.hand hat
      rw [hans]
      cases hpc : u.pc with
      | params c named rest =>
        simp only [hpc, AcceptPc.Attends] at hattends
        rw [hattends.1]
        exact .inr rfl
      | _ => exact .inl rfl
    · rcases hi.away hat with hg | ⟨-, hans | ⟨hf, hans⟩⟩
      · exact .inr hg.answer
      · exact .inl hans
      · rw [hf]
        exact .inr hans
  · have hheld := hi.hand hat
    exact ⟨hheld.2.2.2, Server.Held.enabled hheld (Server.wired_reach ((hr.next hs).trans h.reach)) hcalls hi.conn hat⟩
  · exact (hi.away haway).imp_right (fun hl => hl.1)

/-- An upload of ten seconds over one stream. -/
def uploadOpts : ClientOpts := ⟨some 131072, none, 10, 1, false, false, false⟩

/-- The first client of a server. -/
theorem handshake_first : ∃ v u, Server.init.step Server.startDecode (.accept (Server.peer Server.startEnvelopes false)) = some v ∧
    Run (Server.step Server.startDecode) Any v [.read, .write true, .read] u ∧
    Server.Greeted Server.startDecode "c" (uploadParams 1) true 0 0 u := by
  obtain ⟨u, hrun, hu⟩ := exists_run_of_exec (Server.step Server.startDecode) Any
    { Server.init with conns := [Server.peer Server.startEnvelopes false], pc := .hello 0 } [.read, .write true, .read]
    (fun u => u.pc = .accepting) (by decide +kernel)
  have hsocket : (Server.peer Server.startEnvelopes false).bytes =
      frame (ClientEnvelope.encode (.clientMessage (.hello "c"))) ++
        (frame (ClientEnvelope.encode (.clientMessage (.sendParameters (uploadParams 1)))) ++ []) := by decide +kernel
  have hcarries : ∀ free, Carries ServerEnvelope.encode
      (decodeAmong ServerEnvelope.encode [greeting true, greeting false]) (greeting free) := by
    intro free
    cases free <;> exact ⟨by decide +kernel, by decide +kernel⟩
  obtain ⟨-, -, hdone, -⟩ := handshake ClientEnvelope.encode Server.startDecode ServerEnvelope.encode
    (decodeAmong ServerEnvelope.encode [greeting true, greeting false]) uploadOpts "c"
    ⟨by decide +kernel, by decide +kernel⟩ ⟨by decide +kernel, by decide +kernel⟩ hcarries
    (sendControlMessage_of_le (by decide +kernel)) (sendControlMessage_of_le (by decide +kernel)) .refl (by simp [Server.init])
    ⟨_, hsocket, fun _ => ⟨_, rfl⟩⟩ rfl hrun
  refine ⟨_, u, rfl, hrun, (hdone (by simp [of_decide_eq_true hu, AcceptPc.conn])).resolve_right ?_⟩
  rintro ⟨pre, e, post, w, hes, -, -, rfl | rfl⟩
  · have hmem : NetEvent.timeout ∈ ([.read, .write true, .read] : List NetEvent) := by rw [hes]; simp
    simp at hmem
  · have hmem : NetEvent.write false ∈ ([.read, .write true, .read] : List NetEvent) := by rw [hes]; simp
    simp at hmem

end Netperf
