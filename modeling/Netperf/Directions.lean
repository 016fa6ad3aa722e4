import Netperf.Alignment
import Netperf.Gathering
import Netperf.Results
/-!
# The directions of a session's streams

Client and server count their streams separately and derive ids and directions
from the counts. Because the connections come in the same order, both ends give
a connection the same place, and the two tables of directions are opposite.
-/

namespace Netperf

open Maps Frames Runs Lists

/-! ## The two tables -/

/-- At each place the client needs, exactly one end sends. -/
theorem PerfTest.directions (cookie : String) (params : TestParameters) {i : Nat}
    (hi : i < (PerfTest.new cookie .client params).totalNeededStreams) :
    (PerfTest.new cookie .server params).isSendingAt i = !(PerfTest.new cookie .client params).isSendingAt i ∧
      ((PerfTest.new cookie .client params).isSendingAt i = true ↔
        params.direction = .clientToServer ∨ (params.direction = .bidirectional ∧ i < params.parallel.toNat)) := by
  cases hd : params.direction with
  | clientToServer | serverToClient =>
    have hlt : i < params.parallel.toNat := by simpa [totalNeededStreams, new, hd] using hi
    simp [isSendingAt, new, hd, hlt]
  | bidirectional => simp [isSendingAt, new, hd]

/-- Both ends need the same number of streams. -/
theorem PerfTest.total_new (cookie : String) (params : TestParameters) :
    (PerfTest.new cookie .server params).totalNeededStreams = (PerfTest.new cookie .client params).totalNeededStreams := by
  cases hd : params.direction <;> simp [totalNeededStreams, new, hd]

namespace Pair
variable {p : Pair} {cookie : String} {params : TestParameters}

theorem config_reach (h : Reach step (new cookie params) p) :
    p.server.config = (PerfTest.new cookie .server params).config ∧
      p.client.config = (PerfTest.new cookie .client params).config := by
  refine h.inv (fun p => p.server.config = (PerfTest.new cookie .server params).config ∧
    p.client.config = (PerfTest.new cookie .client params).config) ⟨rfl, rfl⟩ (fun p e q hi hs => ?_)
  cases step_cases hs with
  | server _ ht => exact ⟨(ServerTest.config_of_step ht).trans hi.1, hi.2⟩
  | client _ ht => exact ⟨hi.1, (ClientTest.config_of_step ht).trans hi.2⟩

/-- In its loop the client is told a state that may follow the one it has. -/
theorem Exchanging.hears (h : Exchanging p) (hcookie : p.server.cookie = cookie)
    (hs : Script cookie p.client.nextState p.client.heard) {e : ClientEvent}
    (hd : p.delivers (.client e) = true) : ClientTest.Hears cookie p.client e := by
  rintro m rfl hpc
  have hm : p.toClient = some m := by simpa [delivers] using hd
  obtain ⟨s, rfl⟩ := h.matched.clientLoop m hpc hm
  refine ⟨s, rfl, ?_⟩
  have hpre := prefix_concat h.heard hm
  obtain ⟨s₀, ms, hms, hsent⟩ := h.said.script
  rw [hcookie] at hms
  have hstates : p.client.heard ++ [.setState s] <+: ms := by
    rcases hsent with hsent | ⟨-, results, hsent⟩
    · exact hsent ▸ hpre
    · rw [hsent] at hpre
      rcases List.prefix_concat_iff.1 hpre with he | hpre
      · simpa using (List.append_inj' he rfl).2
      · exact hpre
  obtain ⟨s₁, hs₁, ht⟩ := hms.next_of_prefix hstates
  rwa [hs.unique hs₁]

end Pair

/-! ## The session -/

namespace Session
variable {decode : List UInt8 → Option ClientEnvelope} {s u : Session} {e : SessionEvent} {cookie : String}
  {params : TestParameters} {t t' : ServerTest}

/-- Third parties do not have the cookie, and at neither end of the test a
worker ends before its controller has started the load. -/
def Honest (decode : List UInt8 → Option ClientEnvelope) (cookie : String) (s : Session) (e : SessionEvent) : Prop :=
  Foreign decode cookie e ∧ match e with
    | .server (.test k ev) => k = s.test → ∀ t, s.server.tests[k]? = some t → t.Loads ev
    | .client ev => s.client.Loads ev
    | _ => True

/-- What holds of a session whose test is `t`. -/
structure Settled (decode : List UInt8 → Option ClientEnvelope) (cookie : String) (params : TestParameters)
    (s : Session) (t : ServerTest) : Prop where
  test : s.server.tests[s.test]? = some t
  server : Reach (Server.step decode) Server.init s.server
  pair : Reach Pair.step (Pair.new cookie params) ⟨t, s.client⟩
  aligned : Aligned decode cookie s t
  ranked : t.Ranked
  gathers : t.returned = false → t.totalNeededStreams ≤ t.workers.length ∨ t.Gathers
  gathering : s.client.Gathering cookie
  dialing : s.dial ≠ .none → s.client.workers.length < s.client.totalNeededStreams

theorem Settled.total (hi : Settled decode cookie params s t) : t.totalNeededStreams = s.client.totalNeededStreams := by
  obtain ⟨hserver, hclient⟩ := Pair.config_reach hi.pair
  rw [PerfTest.totalNeededStreams_config hserver, PerfTest.totalNeededStreams_config hclient, PerfTest.total_new]

/-- The client never makes more connections than it needs. -/
theorem Settled.dialed_le (hi : Settled decode cookie params s t) :
    s.dialed.length ≤ s.client.totalNeededStreams := by
  have hb := hi.gathering.bounded
  have hd := hi.dialing
  cases hdial : s.dial with
  | none => simpa [dialed, hdial] using hb
  | pending => simpa [dialed, hdial] using hb
  | accepted c =>
    have hlt := hd (by simp [hdial])
    simp only [dialed, hdial, List.length_append, List.length_map, List.length_singleton]
    omega

/-- The server registers a stream only while none has ended. -/
theorem Settled.registers (hi : Settled decode cookie params s t) (n : Nat) (rest : List ControllerMessage)
    (hpc : t.pc = .waiting) (hq : t.queue = .createStream n :: rest) : len t.streams = t.workers.length := by
  rcases hi.gathers (by simp [ServerTest.returned, hpc]) with hfull | hg
  · -- the stream in the queue is one of the client's, and they are all there
    have hlen := hi.aligned.handed.length_le.trans hi.dialed_le
    have hq' : t.workers.length < t.connections.length := by simp [ServerTest.connections, hq]
    rw [hi.total] at hfull
    omega
  · exact hg.unended.size

theorem Settled.test_step (hi : Settled decode cookie params s t) {ev : ServerEvent} (h : t.step ev = some t')
    (hl : t.Loads ev) : t'.Ranked ∧ (t'.returned = false → t'.totalNeededStreams ≤ t'.workers.length ∨ t'.Gathers) := by
  have hstep := ServerTest.step_cases h
  have hphase := (Pair.linked_reach hi.pair).phase
  refine ⟨ServerTest.ranked_step hstep hi.ranked (fun n rest hpc hq => hi.registers n rest hpc hq), fun hr => ?_⟩
  exact ServerTest.gathers_step hstep hphase hl hi.ranked.toNumbered hr (hi.gathers (ServerTest.returned_of_step hstep hr))

/-- The server's end after a step of the session. -/
theorem Settled.server_step (hi : Settled decode cookie params s t) {v : Server} {ev : NetEvent}
    (h : s.server.step decode ev = some v) (ht' : v.tests[s.test]? = some t')
    (hl : ∀ te, ev = .test s.test te → t.Loads te) :
    t'.Ranked ∧ (t'.returned = false → t'.totalNeededStreams ≤ t'.workers.length ∨ t'.Gathers) := by
  obtain ⟨t₀, ht₀, rfl | ⟨te, hte, hst⟩⟩ := Session.test_step (Server.step_cases h) (Server.wired_reach hi.server) hi.test
  · rw [ht', Option.some.injEq] at ht₀
    subst ht₀
    exact ⟨hi.ranked, hi.gathers⟩
  · rw [ht', Option.some.injEq] at ht₀
    subst ht₀
    apply hi.test_step hte
    rcases hst with he | rfl | rfl | ⟨c, rfl, -⟩
    · exact hl te he
    · trivial
    · trivial
    · trivial

theorem Settled.client_step (hi : Settled decode cookie params s t) {c : ClientTest} {ev : ClientEvent}
    (h : s.client.step ev = some c) (hl : s.client.Loads ev)
    (hd : (Pair.mk t s.client).delivers (.client ev) = true) : c.Gathering cookie := by
  have hstep := ClientTest.step_cases h
  by_cases hr : s.client.returned = true
  · -- nothing is read any more
    refine ClientTest.gathering_step hstep hl ?_ hi.gathering
    rintro m rfl hpc
    simp [ClientTest.returned, hpc] at hr
  · have hserver := (Pair.config_reach hi.pair).1
    have hcookie : t.cookie = cookie := congrArg Prod.fst hserver
    have hscript := hi.gathering.script (by simpa using hr)
    exact ClientTest.gathering_step hstep hl ((Pair.exchanging_reach hi.pair).hears hcookie hscript hd) hi.gathering

theorem settled_step (h : s.step decode e = some u) (hc : Honest decode cookie s e)
    (hi : Settled decode cookie params s t) : ∃ t', Settled decode cookie params u t' := by
  have hw := Server.wired_reach hi.server
  have hstep := step_cases h
  obtain ⟨es, hrun⟩ := hi.server
  obtain ⟨hf, hload⟩ := hc
  obtain ⟨htest, t', ht', hp⟩ := pair_step hstep hw hi.test
  have hcookie : t.cookie = cookie := congrArg Prod.fst (Pair.config_reach hi.pair).1
  have haligned := aligned_step hstep hf hrun hi.test ht' hcookie (Pair.linked_reach hi.pair).phase hi.aligned
  have hpair : Reach Pair.step (Pair.new cookie params) ⟨t', u.client⟩ := by
    rcases hp with ⟨rfl, hsame⟩ | ⟨pe, hpe⟩
    · exact hsame ▸ hi.pair
    · exact hi.pair.next hpe
  cases hstep with
  | server _ hs =>
    obtain ⟨hr, hg⟩ := hi.server_step hs ht' (fun te he => by subst he; exact hload rfl t hi.test)
    exact ⟨t', ht', hi.server.next hs, hpair, haligned, hr, hg, hi.gathering, hi.dialing⟩
  | @client ev c hne hd hs =>
    obtain rfl := Option.some.inj (hi.test.symm.trans ht')
    have hgathering := hi.client_step hs hload (delivers_eq hi.test _ ▸ hd)
    have hcstep := ClientTest.step_cases hs
    refine ⟨t, ht', hi.server, hpair, haligned, hi.ranked, hi.gathers, hgathering, fun hdial => ?_⟩
    -- only a finished connection adds a worker
    have hlen : c.workers.length = s.client.workers.length := by
      have hstreams := congrArg List.length (ClientTest.streams_step hcstep)
      cases ev with
      | connect stream =>
        cases stream with
        | none => simpa using hstreams
        | some n => exact absurd rfl (hne n)
      | _ => simpa using hstreams
    have htotal := PerfTest.totalNeededStreams_config (ClientTest.config_of_step hcstep)
    simp only [hlen, htotal]
    exact hi.dialing hdial
  | connected _ _ hs =>
    obtain rfl := Option.some.inj (hi.test.symm.trans ht')
    have hgathering := hi.client_step hs trivial rfl
    exact ⟨t, ht', hi.server, hpair, haligned, hi.ranked, hi.gathers, hgathering, by simp⟩
  | dial hpc =>
    obtain rfl := Option.some.inj (hi.test.symm.trans ht')
    exact ⟨t, ht', hi.server, hpair, haligned, hi.ranked, hi.gathers, hi.gathering,
      fun _ => (hi.gathering.connecting hpc).2⟩
  | arrive hd hs =>
    obtain ⟨hr, hg⟩ := hi.server_step hs ht' (by simp)
    exact ⟨t', ht', hi.server.next hs, hpair, haligned, hr, hg, hi.gathering,
      fun _ => hi.dialing (by simp [hd])⟩

/-- The cookie and the parameters of the test that `create_test` is about to
make. -/
def asked (decode : List UInt8 → Option ClientEnvelope) (v : Server) : Option (String × TestParameters) :=
  match v.pc with
  | .params _ cookie socket =>
    match readTestParameters decode socket with
    | .ok params _ => some (cookie, params)
    | _ => none
  | _ => none

/-- `create_test` has just made test `k` of the server for a client. -/
def Created (decode : List UInt8 → Option ClientEnvelope) (cookie : String) (params : TestParameters) (k : Nat)
    (w : Server) : Prop :=
  ∃ v, Reach (Server.step decode) Server.init v ∧ asked decode v = some (cookie, params) ∧ v.tests.length = k ∧
    v.step decode .read = some w

theorem created_shape {v w : Server} (ha : asked decode v = some (cookie, params)) (hs : v.step decode .read = some w) :
    w.pc = .accepting ∧ w.tests = v.tests ++ [ServerTest.new cookie params] := by
  unfold asked at ha
  cases Server.step_cases hs with
  | created hpc hread =>
    simp only [hpc, hread, Option.some.injEq, Prod.mk.injEq] at ha
    obtain ⟨rfl, rfl⟩ := ha
    exact ⟨rfl, rfl⟩
  | uncreated hpc hread => simp [hpc, hread] at ha
  | matched hpc | foreign hpc | malformed hpc | named hpc | unnamed hpc => simp [hpc] at ha

theorem settled_new {k : Nat} {w : Server} (h : Created decode cookie params k w) :
    Settled decode cookie params (new w k cookie params) (ServerTest.new cookie params) := by
  obtain ⟨v, hv, ha, rfl, hs⟩ := h
  obtain ⟨hacc, htests⟩ := created_shape ha hs
  have hdialed : (new w v.tests.length cookie params).dialed = [] := rfl
  refine ⟨by simp [new, htests], hv.next hs, .refl, ?_, .new _ rfl, fun _ => .inr ⟨rfl, by simp [ServerTest.new], .new _ rfl⟩,
    ClientTest.gathering_new cookie params, by simp [new]⟩
  exact ⟨by simp [hdialed], by simp [hdialed], by simp [new, hacc, AcceptPc.conn], List.nil_prefix,
    by simp [new, hacc, AcceptPc.passed], fun _ _ => .inl rfl⟩

theorem settled_run {k : Nat} {w : Server} {es : List SessionEvent} (hw : Created decode cookie params k w)
    (h : Run (step decode) (Honest decode cookie) (new w k cookie params) es s) :
    s.test = k ∧ ∃ t, Settled decode cookie params s t := by
  induction h with
  | nil => exact ⟨rfl, _, settled_new hw⟩
  | snoc _ hc hs ih =>
    obtain ⟨hk, t, hi⟩ := ih
    obtain ⟨htest, -⟩ := pair_step (step_cases hs) (Server.wired_reach hi.server) hi.test
    exact ⟨htest.trans hk, settled_step hs hc hi⟩

/-- A stream registered at both ends has one id there, exactly one end sends on
it, and which one follows from the direction of the test. -/
theorem directions_agree {k : Nat} {w : Server} {es : List SessionEvent} (hw : Created decode cookie params k w)
    (h : Run (step decode) (Honest decode cookie) (new w k cookie params) es s) (ht : s.server.tests[k]? = some t)
    {x y : Worker} (hx : x ∈ t.workers) (hy : y ∈ s.client.workers) (hxy : x.stream = y.stream) :
    x.id = y.id ∧ x.isSending = !y.isSending ∧
      (y.isSending = true ↔
        params.direction = .clientToServer ∨ (params.direction = .bidirectional ∧ y.id < params.parallel.toNat)) := by
  obtain ⟨rfl, t₀, hi⟩ := settled_run hw h
  obtain rfl : t = t₀ := Option.some.inj (ht.symm.trans hi.test)
  obtain ⟨hserver, hclient⟩ := Pair.config_reach hi.pair
  obtain ⟨i, hxi⟩ := List.getElem?_of_mem hx
  obtain ⟨j, hyj⟩ := List.getElem?_of_mem hy
  -- the stream is one connection, which the client made once
  have hdx : s.dialed[i]? = some x.stream := by
    refine getElem?_of_prefix ((List.prefix_append _ _).trans hi.aligned.handed) ?_
    simp [hxi]
  have hdy : s.dialed[j]? = some y.stream := by
    refine getElem?_of_prefix (List.prefix_append _ _) ?_
    simp [hyj]
  have hij : i = j := by
    have hnodup : s.dialed.Nodup := hi.aligned.ascending.imp (fun h => Nat.ne_of_lt h)
    rw [← hxy, ← hdx] at hdy
    exact (List.getElem?_inj (lt_of_getElem? hdx) hnodup).1 hdy.symm
  subst hij
  have hlt : i < (PerfTest.new cookie .client params).totalNeededStreams := by
    rw [← PerfTest.totalNeededStreams_config hclient]
    exact (lt_of_getElem? hyj).trans_le hi.gathering.bounded
  obtain ⟨hopposite, hsends⟩ := PerfTest.directions cookie params hlt
  have hxs := (hi.ranked.directed i x hxi).trans (PerfTest.isSendingAt_config hserver i)
  have hys := (hi.gathering.ranked.directed i y hyj).trans (PerfTest.isSendingAt_config hclient i)
  have hyid := hi.gathering.ranked.ids i y hyj
  refine ⟨(hi.ranked.ids i x hxi).trans hyid.symm, ?_, ?_⟩
  · rw [hxs, hys, hopposite]
  · rw [hys, hyid]
    exact hsends

instance (t : ServerTest) : ∀ e, Decidable (t.Loads e)
  | .lock | .write _ | .recv | .join | .collect _ _ | .read _ | .worker _ _ | .guard | .unguard | .offer _ | .vanish => by
    unfold ServerTest.Loads
    infer_instance

instance (t : ClientTest) (e : ClientEvent) : Decidable (t.Loads e) := by
  cases e <;> unfold ClientTest.Loads <;> infer_instance

instance {α : Type} (o : Option α) (p : α → Prop) [DecidablePred p] : Decidable (∀ a, o = some a → p a) :=
  match o with
  | none => .isTrue (by simp)
  | some a => decidable_of_iff (p a) (by simp)

instance (e : SessionEvent) : Decidable (Foreign decode cookie e) := by
  unfold Foreign
  split <;> infer_instance

instance (s : Session) (e : SessionEvent) : Decidable (Honest decode cookie s e) := by
  unfold Honest
  refine @instDecidableAnd _ _ inferInstance ?_
  split <;> infer_instance

/-- Evaluates a session on a server that has seen no connection before the
client's control connection `socket`. -/
def evaluate (decode : List UInt8 → Option ClientEnvelope) (C : Session → SessionEvent → Prop)
    [∀ s e, Decidable (C s e)] (socket : Source) (cookie : String) (params : TestParameters) (es : List SessionEvent) :
    Option Session :=
  (exec (Server.step decode) Server.init [.accept socket, .read, .write true]).bind (fun v =>
    if asked decode v = some (cookie, params) ∧ v.tests.length = 0 then
      (v.step decode .read).bind (fun w => exec (guarded (step decode) C) (new w 0 cookie params) es)
    else none)

theorem exists_session (decode : List UInt8 → Option ClientEnvelope) (C : Session → SessionEvent → Prop)
    [∀ s e, Decidable (C s e)] (socket : Source) (cookie : String) (params : TestParameters) (es : List SessionEvent)
    (p : Session → Bool) (h : (evaluate decode C socket cookie params es).any p = true) :
    ∃ w s, Created decode cookie params 0 w ∧ Run (step decode) C (new w 0 cookie params) es s ∧ p s = true := by
  simp only [evaluate, Option.any_eq_true, Option.bind_eq_some_iff, Option.ite_none_right_eq_some] at h
  obtain ⟨s, ⟨v, hv, ⟨ha, hlen⟩, w, hw, hs⟩, hp⟩ := h
  exact ⟨w, s, ⟨v, reach_of_exec hv, ha, hlen, hw⟩, run_of_exec hs, hp⟩

/-- The server announces `CreateStreams`. While the client connects its stream,
somebody else connects with another cookie. -/
def streamRun : List SessionEvent :=
  (ServerTest.announceRun.map (fun e => .server (.test 0 e)) : List SessionEvent) ++
    ([.lock, .lock, .read (.ok (.setState (.createStreams "c"))), .lock, .lock] : List ClientEvent).map .client ++
    [.dial (Server.peer [.clientMessage (.hello "c")] false),
      .server (.accept (Server.peer [.clientMessage (.hello "x")] true)), .server .lock, .server .read,
      .server (.write true), .arrive, .server .lock, .server .read, .server (.write true),
      .client (.connect (some 2)), .server .send, .server (.test 0 .recv)]

theorem directions_agree_one : ∃ w es s t x y, Created Server.startDecode "c" (uploadParams 1) 0 w ∧
    Run (step Server.startDecode) (Honest Server.startDecode "c") (new w 0 "c" (uploadParams 1)) es s ∧
    s.server.tests[0]? = some t ∧ x ∈ t.workers ∧ y ∈ s.client.workers ∧ x.stream = 2 ∧ x.id = y.id ∧
    x.isSending = !y.isSending ∧ y.isSending = true := by
  obtain ⟨w, s, hcreated, hrun, hp⟩ := exists_session Server.startDecode (Honest Server.startDecode "c")
    (Server.peer Server.startEnvelopes false) "c" (uploadParams 1) streamRun
    (fun s => s.client.workers.map Worker.stream = [2] ∧
      (s.server.tests[0]?).any (fun t => t.workers.map Worker.stream = [2])) (by decide +kernel)
  simp only [Option.any_eq_true, decide_eq_true_eq] at hp
  obtain ⟨hc, t, ht, hst⟩ := hp
  obtain ⟨x, hx, hxs⟩ := List.map_eq_singleton_iff.1 hst
  obtain ⟨y, hy, hys⟩ := List.map_eq_singleton_iff.1 hc
  have hxm : x ∈ t.workers := by simp [hx]
  have hym : y ∈ s.client.workers := by simp [hy]
  obtain ⟨hid, hopposite, hsends⟩ := directions_agree hcreated hrun ht hxm hym (hxs.trans hys.symm)
  exact ⟨w, _, s, t, x, y, hcreated, hrun, ht, hxm, hym, hxs, hid, hopposite, hsends.2 (.inl rfl)⟩

end Session

end Netperf
