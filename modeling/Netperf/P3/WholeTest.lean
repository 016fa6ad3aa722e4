import Netperf.P3.Places
import Netperf.P3.Sending
/-!
# A whole p3 test

From the write loops of both ends to the results the client prints. What one
end writes on a connection the other end reads, in any pieces; after the cookie
each byte is counted once at either end, and the rows of the two ends belong to
each other.
-/

namespace Netperf.P3

open Frames

/-! ## Connections -/

/-- What the write loops of a plan put on a connection. -/
def Plan.sentBytes (pl : Plan) (out : Outbound) : Nat :=
  acceptedBytes (writes pl.block.toNat (pl.secs.toNat * nsPerSec) pl.block.toNat out.turns)

/-- The write loop comes to its end, and a write that is cut short is its last. -/
structure Plan.Completes (pl : Plan) (out : Outbound) : Prop where
  returns : (writeData pl.block.toNat pl.secs.toNat pl.measure out).isSome = true
  whole : PartIsLast pl.block.toNat (pl.secs.toNat * nsPerSec) out.turns

/-- A data connection with the client's plan, seen from both ends: what either
end writes arrives at the other, up to the end of the stream. A client that does
not send keeps its stream open. -/
structure Plan.Links (pl : Plan) (client server : DataSocket) : Prop where
  up : ∃ data, server.inbound.bytes = pl.cookie.1 ++ data ∧ (pl.sending = true →
    data.length = pl.sentBytes client.outbound ∧ server.inbound.closed = true ∧ pl.Completes client.outbound)
  down : pl.receiving = true →
    client.inbound.bytes.length = pl.sentBytes server.outbound ∧ client.inbound.closed = true ∧
      pl.Completes server.outbound

/-- While no write is cut short the loop counts what was accepted. -/
theorem writeData_counts {block secs : Nat} {measure : Bool} {out : Outbound} {s : StreamStats}
    (h : writeData block secs measure out = some s) (hp : PartIsLast block (secs * nsPerSec) out.turns) :
    s.bytesTransferred = acceptedBytes (writes block (secs * nsPerSec) block out.turns) := by
  obtain ⟨r, hr, rfl⟩ := Option.map_eq_some_iff.1 h
  obtain ⟨htotal, hb⟩ := writeLoop_total (Nat.le_refl _) hr
  rw [← (sum_eq_accepted_iff hb).2 (offered_whole_iff.2 hp)]
  simpa using htotal

theorem Plan.Completes.stats {pl : Plan} {out : Outbound} (h : pl.Completes out) :
    ∃ x, writeData pl.block.toNat pl.secs.toNat pl.measure out = some x ∧ x.sender = true ∧
      x.bytesTransferred = pl.sentBytes out := by
  obtain ⟨x, hx⟩ := Option.isSome_iff_exists.1 h.returns
  exact ⟨x, hx, writeData_sender hx, writeData_counts hx h.whole⟩

/-! ## The server's end -/

/-- The cookie is read as soon as its bytes are there. -/
theorem readCookie_enough {closed : Bool} {acc : List UInt8} {cs : List Chunk}
    (h : cookieLen ≤ acc.length + (bytesOf cs).length) : ∃ r, readCookie closed acc cs = some r := by
  induction cs generalizing acc with
  | nil =>
    have hle : ¬ acc.length < cookieLen := by simpa using h
    exact ⟨_, by rw [readCookie, if_neg (fun hc => hle hc.1)]⟩
  | cons c cs ih =>
    rw [readCookie]
    split
    · refine ih ?_
      rw [bytesOf_cons, List.length_append] at h
      rw [List.length_append]
      omega
    · exact ⟨_, rfl⟩

/-- A connection that presents the cookie is served, with its stream closed or
not; the end of the stream is what a receiver waits for. -/
theorem serverConn_served {expected : Cookie} {recvData sendData measure : Bool} {block secs : Nat} {sock : DataSocket}
    (hp : Presents expected sock.inbound.bytes) (hc : recvData = true → sock.inbound.closed = true) :
    ∃ r, serverConn expected recvData sendData block secs measure sock =
        some (transfer recvData sendData r (sendAll block secs measure sock.outbound)) ∧
      (recvData = true → r = some (readStats sock.readNs (sock.inbound.bytes.length - cookieLen))) := by
  have hlen : cookieLen ≤ ([] : List UInt8).length + (bytesOf sock.inbound.chunks).length := by
    have hle := hp.length_le
    rw [expected.2] at hle
    rwa [List.length_nil, Nat.zero_add]
  obtain ⟨⟨acc, rest⟩, hread⟩ := readCookie_enough hlen
  obtain ⟨hbytes, hcheck⟩ := readCookie_check expected hread
  have hok := hcheck.2 hp
  refine ⟨readData sock.inbound.closed rest sock.readNs (acc.length - cookieLen), ?_, fun hr => ?_⟩
  · unfold serverConn
    rw [hread, Option.map_some]
    exact congrArg some (if_neg hok)
  · have htotal : acc.length - cookieLen + (bytesOf rest).length = sock.inbound.bytes.length - cookieLen := by
      have hbytes' := congrArg List.length hbytes
      rw [List.length_append] at hbytes'
      simp only [not_or, Nat.not_lt, not_not] at hok
      unfold Source.bytes
      omega
    rw [hc hr, readData_closed, htotal]

/-! ## Both ends -/

/-- The reports of the transfer on a connection from the end with the socket
`src` to that with `dst`: of what the write loop wrote there, and of the reads of
what arrived. -/
structure Transferred (pl : Plan) (src dst : DataSocket) (sent received : StreamStats) : Prop where
  written : writeData pl.block.toNat pl.secs.toNat pl.measure src.outbound = some sent
  read : received = readStats dst.readNs (pl.sentBytes src.outbound)
  sends : sent.sender = true
  receives : received.sender = false
  bytes : sent.bytesTransferred = received.bytesTransferred

/-- The reports of a transfer that comes to its end. -/
theorem Plan.Completes.transferred {pl : Plan} {src : DataSocket} (h : pl.Completes src.outbound) (dst : DataSocket) :
    ∃ x, writeData pl.block.toNat pl.secs.toNat pl.measure src.outbound = some x ∧
      Transferred pl src dst x (readStats dst.readNs (pl.sentBytes src.outbound)) := by
  obtain ⟨x, hx, hsends, hbytes⟩ := h.stats
  exact ⟨x, hx, hx, rfl, hsends, rfl, hbytes⟩

/-- What the client and the server return for a connection, each the entry of
what it sends before that of what it receives. -/
inductive Agree (pl : Plan) (client server : DataSocket) : Bool → Bool → List StreamStats → List StreamStats → Prop
  | both {x r y q : StreamStats} (up : Transferred pl client server x q) (down : Transferred pl server client y r) :
      Agree pl client server true true [x, r] [y, q]
  | up {x q : StreamStats} (up : Transferred pl client server x q) : Agree pl client server true false [x] [q]
  | down {r y : StreamStats} (down : Transferred pl server client y r) : Agree pl client server false true [r] [y]
  | neither : Agree pl client server false false [] []

/-- What the server returns for its connection of the pair. -/
theorem Plan.Links.served {pl : Plan} {client server : DataSocket} (h : pl.Links client server) :
    ∃ t data, pl.mirror.serverConn server =
        some (transfer pl.sending pl.receiving t (sendAll pl.block.toNat pl.secs.toNat pl.measure server.outbound)) ∧
      (pl.sending = true → t = some (readStats server.readNs data) ∧ data = pl.sentBytes client.outbound) := by
  obtain ⟨data, hdata, hup⟩ := h.up
  have hpresents : Presents pl.cookie server.inbound.bytes := ⟨data, hdata.symm⟩
  obtain ⟨t, hserved, hreceived⟩ := serverConn_served hpresents (fun hs => (hup hs).2.1)
  refine ⟨t, data.length, hserved, fun hs => ⟨?_, (hup hs).1⟩⟩
  have hsize : server.inbound.bytes.length - cookieLen = data.length := by
    rw [hdata, List.length_append, pl.cookie.2, Nat.add_sub_cancel_left]
  rw [hreceived hs, hsize]

/-- What the client receives on its connection of the pair. -/
theorem Plan.Links.received {pl : Plan} {client server : DataSocket} (h : pl.Links client server)
    (hr : pl.receiving = true) :
    recvAll client = some (readStats client.readNs (pl.sentBytes server.outbound)) := by
  obtain ⟨hlen, hclosed, -⟩ := h.down hr
  unfold recvAll
  rw [hclosed, readData_closed, Nat.zero_add, ← hlen]
  rfl

theorem Plan.Links.agree {pl : Plan} {client server : DataSocket} (h : pl.Links client server) :
    ∃ l m, pl.conn false client = some l ∧ pl.mirror.conn true server = some m ∧
      Agree pl client server pl.sending pl.receiving l m := by
  obtain ⟨t, n, hserved, hread⟩ := h.served
  obtain ⟨data, -, hup⟩ := h.up
  have hserver : pl.mirror.conn true server =
      (transfer pl.sending pl.receiving t (sendAll pl.block.toNat pl.secs.toNat pl.measure server.outbound)).stats := by
    unfold Plan.conn
    rw [if_pos rfl, hserved]
    rfl
  rw [hserver]
  unfold sendAll
  simp only [Plan.conn, Plan.clientConn, P3.clientConn, Bool.false_eq_true, if_false]
  cases hs : pl.sending with
  | true =>
    obtain ⟨rfl, hn⟩ := hread hs
    obtain ⟨x, hx, hsent⟩ := (hup hs).2.2.transferred server
    rw [← hn] at hsent
    cases hr : pl.receiving with
    | true =>
      obtain ⟨y, hy, hback⟩ := (h.down hr).2.2.transferred client
      refine ⟨_, _, ?_, ?_, .both hsent hback⟩
      · simp [hx, h.received hr]
      · simp [transfer, hy]
    | false =>
      refine ⟨_, _, ?_, ?_, .up hsent⟩
      · simp [hx]
      · simp [transfer]
  | false =>
    cases hr : pl.receiving with
    | true =>
      obtain ⟨y, hy, hback⟩ := (h.down hr).2.2.transferred client
      refine ⟨_, _, ?_, ?_, .down hback⟩
      · simp [h.received hr]
      · simp [transfer, hy]
    | false => exact ⟨_, _, rfl, rfl, .neither⟩

/-! ## The rows of both results -/

/-- How many rows either end has. -/
def Opts.rows (o : Opts) : Nat := if o.bidir then 2 * o.parallel.toNat else o.parallel.toNat

/-- The id at the other end of the transfer that this end numbers `id`. -/
def Opts.twin (o : Opts) (id : Nat) : Nat := if o.bidir then (if id % 2 = 0 then id + 1 else id - 1) else id

/-- Whether the client sends what it numbers `id`. -/
def Opts.sends (o : Opts) (id : Nat) : Bool := if o.bidir then id % 2 = 0 else !o.reverse

/-- The connection that carries the transfer. -/
def Opts.connection (o : Opts) (id : Nat) : Nat := if o.bidir then id / 2 else id

/-- Each row of the client's belongs to one of the server's: the two report the
same transfer on the same connection. There are no other rows. In a test of both
directions the two do not have the same id. -/
structure Mirrored (o : Opts) (cb : Cookie) (conns : List (DataSocket × DataSocket)) (locals remote : TestResults) :
    Prop where
  paired : ∀ id < o.rows, ∃ p x y, conns[o.connection id]? = some p ∧ locals.streams.lookup id = some x ∧
    remote.streams.lookup (o.twin id) = some y ∧
    if o.sends id then Transferred (clientPlan o cb) p.1 p.2 x y else Transferred (clientPlan o cb) p.2 p.1 y x
  only : ∀ id, o.rows ≤ id → locals.streams.lookup id = none ∧ remote.streams.lookup id = none

/-- What both ends return, connection by connection. -/
structure Agreed (pl : Plan) (sending receiving : Bool) (conns : List (DataSocket × DataSocket))
    (couts souts : List (List StreamStats)) : Prop where
  lengths : couts.length = conns.length ∧ souts.length = conns.length
  each : ∀ (i : Nat) (p : DataSocket × DataSocket), conns[i]? = some p →
    ∃ l m, couts[i]? = some l ∧ souts[i]? = some m ∧ Agree pl p.1 p.2 sending receiving l m

theorem Agree.lengths {pl : Plan} {client server : DataSocket} {sending receiving : Bool} {l m : List StreamStats}
    (h : Agree pl client server sending receiving l m) :
    l.length = m.length ∧ l.length = (if sending then 1 else 0) + if receiving then 1 else 0 := by
  cases h <;> exact ⟨rfl, rfl⟩

section
variable {o : Opts} {cb : Cookie} {pl : Plan} {conns : List (DataSocket × DataSocket)} {sending receiving : Bool}
  {couts souts : List (List StreamStats)} {k : Nat}

/-- With `k` rows for each connection, the rows of a connection are next to each other. -/
theorem lookup_connection {outs : List (List StreamStats)} (hk : 0 < k) (h : ∀ l ∈ outs, l.length = k) (id : Nat) :
    (toResults outs.flatten).streams.lookup id = (outs[id / k]?).bind (fun l => l[id % k]?) := by
  rw [toResults_lookup, ← Lists.getElem?_flatten_of_length h (Nat.mod_lt _ hk), Nat.div_add_mod]

theorem lookup_beyond {outs : List (List StreamStats)} (hk : 0 < k) (h : ∀ l ∈ outs, l.length = k) {id : Nat}
    (hid : k * outs.length ≤ id) : (toResults outs.flatten).streams.lookup id = none := by
  have hle : outs.length ≤ id / k := (Nat.le_div_iff_mul_le hk).2 (by rwa [Nat.mul_comm])
  rw [lookup_connection hk h, List.getElem?_eq_none hle]
  rfl

/-- How many entries every connection has at either end. -/
theorem Agreed.entries (h : Agreed pl sending receiving conns couts souts) :
    (∀ l ∈ couts, l.length = (if sending then 1 else 0) + if receiving then 1 else 0) ∧
      (∀ m ∈ souts, m.length = (if sending then 1 else 0) + if receiving then 1 else 0) := by
  constructor
  · intro l hl
    obtain ⟨i, hi⟩ := List.getElem?_of_mem hl
    have hlt : i < conns.length := h.lengths.1 ▸ Lists.lt_of_getElem? hi
    obtain ⟨l', m, hl', -, hagree⟩ := h.each i _ (List.getElem?_eq_getElem hlt)
    rw [hi, Option.some.injEq] at hl'
    exact hl' ▸ hagree.lengths.2
  · intro m hm
    obtain ⟨i, hi⟩ := List.getElem?_of_mem hm
    have hlt : i < conns.length := h.lengths.2 ▸ Lists.lt_of_getElem? hi
    obtain ⟨l, m', -, hm', hagree⟩ := h.each i _ (List.getElem?_eq_getElem hlt)
    rw [hi, Option.some.injEq] at hm'
    rw [hm', ← hagree.lengths.1, hagree.lengths.2]

theorem mirrored_bidir (ho : o.bidir = true) (h : Agreed (clientPlan o cb) true true conns couts souts)
    (hlen : conns.length = o.parallel.toNat) :
    Mirrored o cb conns (toResults couts.flatten) (toResults souts.flatten) := by
  obtain ⟨hcs, hss⟩ := h.entries
  obtain ⟨hclen, hslen⟩ := h.lengths
  have hrows : o.rows = 2 * conns.length := by rw [Opts.rows, if_pos ho, hlen]
  refine ⟨fun id hid => ?_, fun id hid => ?_⟩
  · have hi : id / 2 < conns.length := by omega
    obtain ⟨l, m, hl, hm, hagree⟩ := h.each _ _ (List.getElem?_eq_getElem hi)
    refine ⟨conns[id / 2], ?_⟩
    rw [lookup_connection Nat.two_pos hcs, lookup_connection Nat.two_pos hss]
    simp only [Opts.connection, Opts.twin, Opts.sends, ho, if_true]
    cases hagree with
    | both up down =>
      rcases Nat.mod_two_eq_zero_or_one id with h0 | h1
      · have htwin : (id + 1) / 2 = id / 2 ∧ (id + 1) % 2 = 1 := by omega
        rw [if_pos h0, htwin.1, htwin.2, h0, hl, hm]
        exact ⟨_, _, List.getElem?_eq_getElem hi, rfl, rfl, up⟩
      · have htwin : (id - 1) / 2 = id / 2 ∧ (id - 1) % 2 = 0 := by omega
        rw [if_neg (by omega), htwin.1, htwin.2, h1, hl, hm]
        exact ⟨_, _, List.getElem?_eq_getElem hi, rfl, rfl, down⟩
  · rw [hrows] at hid
    exact ⟨lookup_beyond Nat.two_pos hcs (hclen ▸ hid), lookup_beyond Nat.two_pos hss (hslen ▸ hid)⟩

theorem mirrored_oneWay (ho : o.bidir = false)
    (h : Agreed (clientPlan o cb) (!o.reverse) o.reverse conns couts souts) (hlen : conns.length = o.parallel.toNat) :
    Mirrored o cb conns (toResults couts.flatten) (toResults souts.flatten) := by
  obtain ⟨hcs, hss⟩ := h.entries
  obtain ⟨hclen, hslen⟩ := h.lengths
  have hone : ((if (!o.reverse) = true then 1 else 0) + if o.reverse = true then 1 else 0) = 1 := by
    cases o.reverse <;> rfl
  rw [hone] at hcs hss
  have hrows : o.rows = 1 * conns.length := by rw [Opts.rows, if_neg (by simp [ho]), hlen, Nat.one_mul]
  refine ⟨fun id hid => ?_, fun id hid => ?_⟩
  · have hi : id < conns.length := by omega
    obtain ⟨l, m, hl, hm, hagree⟩ := h.each _ _ (List.getElem?_eq_getElem hi)
    refine ⟨conns[id], ?_⟩
    rw [lookup_connection Nat.one_pos hcs, lookup_connection Nat.one_pos hss]
    simp only [Opts.connection, Opts.twin, Opts.sends, ho, Bool.false_eq_true, if_false, Nat.div_one, Nat.mod_one, hl, hm,
      Option.bind_some]
    cases hr : o.reverse with
    | false =>
      rw [hr] at hagree
      cases hagree with
      | up up => exact ⟨_, _, List.getElem?_eq_getElem hi, rfl, rfl, up⟩
    | true =>
      rw [hr] at hagree
      cases hagree with
      | down down => exact ⟨_, _, List.getElem?_eq_getElem hi, rfl, rfl, down⟩
  · rw [hrows] at hid
    exact ⟨lookup_beyond Nat.one_pos hcs (hclen ▸ hid), lookup_beyond Nat.one_pos hss (hslen ▸ hid)⟩

end

/-! ## A test from end to end -/

section
variable {o : Opts} {cb : Cookie} {conns : List (DataSocket × DataSocket)}

/-- Over linked connections both ends return, with rows that belong to each other. -/
theorem streams_mirrored (hlen : conns.length = o.parallel.toNat)
    (h : ∀ p ∈ conns, (clientPlan o cb).Links p.1 p.2) :
    ∃ ls ms, runStreams (conns.map Prod.fst) false (clientPlan o cb) = some ls ∧
      runStreams (conns.map Prod.snd) true (clientPlan o cb).mirror = some ms ∧
      Mirrored o cb conns (toResults ls) (toResults ms) := by
  obtain ⟨couts, souts, hcs, hss, hlens, heach⟩ := Lists.exists_mapM_pairs (fun p hp => (h p hp).agree)
  have hagreed : Agreed (clientPlan o cb) (clientPlan o cb).sending (clientPlan o cb).receiving conns couts souts :=
    ⟨hlens, heach⟩
  refine ⟨couts.flatten, souts.flatten, by rw [runStreams, joinAll, hcs]; rfl, by rw [runStreams, joinAll, hss]; rfl, ?_⟩
  cases ho : o.bidir with
  | true =>
    have hroles : (clientPlan o cb).sending = true ∧ (clientPlan o cb).receiving = true := by
      simp [clientPlan, Opts.dir, ho, roles]
    rw [hroles.1, hroles.2] at hagreed
    exact mirrored_bidir ho hagreed hlen
  | false =>
    have hroles : (clientPlan o cb).sending = (!o.reverse) ∧ (clientPlan o cb).receiving = o.reverse := by
      cases hr : o.reverse <;> simp [clientPlan, Opts.dir, ho, hr] <;> decide
    rw [hroles.1, hroles.2] at hagreed
    exact mirrored_oneWay ho hagreed hlen

/-- The runs of both ends, and what they make of it. -/
theorem ends_return {encodeP : Params → List UInt8} {decodeP : List UInt8 → Option Params}
    {encodeR : TestResults → List UInt8} {decodeR : List UInt8 → Option TestResults} {later : List DataSocket}
    {ctrl : Source} (hlen : conns.length = o.parallel.toNat) (hlinks : ∀ p ∈ conns, (clientPlan o cb).Links p.1 p.2)
    (hp : decodeP (encodeP (o.params cb)) = some (o.params cb)) (hplen : (encodeP (o.params cb)).length < 2 ^ 32 - 4)
    (hctrl : framed (encodeP (o.params cb)) <+: ctrl.bytes) :
    ∃ ls ms, runStreams (conns.map Prod.fst) false (clientPlan o cb) = some ls ∧
      runStreams (conns.map Prod.snd) true (clientPlan o cb).mirror = some ms ∧
      Mirrored o cb conns (toResults ls) (toResults ms) ∧
      serverRun decodeP ctrl (conns.map Prod.snd ++ later) = some (toResults ms) ∧
      ∀ back : Source, decodeR (encodeR (toResults ms)) = some (toResults ms) →
        (encodeR (toResults ms)).length < 2 ^ 32 - 4 → framed (encodeR (toResults ms)) <+: back.bytes →
        clientRun decodeR o cb back (conns.map Prod.fst) = some (toResults ls, toResults ms, directionOf o.dir) := by
  obtain ⟨ls, ms, hclient, hserver, hmirrored⟩ := streams_mirrored hlen hlinks
  have hparams : recvMsg decodeP ctrl = .returned (some (o.params cb)) := by rw [recvMsg_framed hplen hctrl, hp]
  have hcount : o.parallel.toNat = (conns.map Prod.snd).length := by rw [List.length_map, hlen]
  have hdatas : acceptDatas o.parallel.toNat (conns.map Prod.snd ++ later) = some (conns.map Prod.snd) := by
    rw [acceptDatas_eq (by rw [List.length_append, ← hcount]; exact Nat.le_add_right _ _), hcount, List.take_left]
  refine ⟨ls, ms, hclient, hserver, hmirrored, ?_, fun back hr hrlen hback => ?_⟩
  · rw [serverRun_eq hparams hdatas, hserver]
    rfl
  · have hresults : recvMsg decodeR back = .returned (some (toResults ms)) := by rw [recvMsg_framed hrlen hback, hr]
    rw [clientRun_eq hresults, hclient]
    rfl

end

/-- A test whose connections all come about and whose write loops all come to
their end: the server returns results, whatever connects after the client; the
client prints these beside its own, however the bytes arrive; and each row is
mirrored at the other end, where it is of the same transfer on the same
connection. -/
theorem whole_test (encodeP : Params → List UInt8) (decodeP : List UInt8 → Option Params)
    (encodeR : TestResults → List UInt8) (decodeR : List UInt8 → Option TestResults) (o : Opts) (cb : Cookie)
    (conns : List (DataSocket × DataSocket)) (later : List DataSocket) (ctrl : Source)
    (hlen : conns.length = o.parallel.toNat) (hlinks : ∀ p ∈ conns, (clientPlan o cb).Links p.1 p.2)
    (hp : decodeP (encodeP (o.params cb)) = some (o.params cb)) (hplen : (encodeP (o.params cb)).length < 2 ^ 32 - 4)
    (hctrl : framed (encodeP (o.params cb)) <+: ctrl.bytes) :
    ∃ locals remote, serverRun decodeP ctrl (conns.map Prod.snd ++ later) = some remote ∧
      Mirrored o cb conns locals remote ∧
      ∀ back : Source, decodeR (encodeR remote) = some remote → (encodeR remote).length < 2 ^ 32 - 4 →
        framed (encodeR remote) <+: back.bytes →
        clientRun decodeR o cb back (conns.map Prod.fst) = some (locals, remote, directionOf o.dir) := by
  obtain ⟨ls, ms, -, -, hmirrored, hserver, hclient⟩ := ends_return hlen hlinks hp hplen hctrl
  exact ⟨toResults ls, toResults ms, hserver, hmirrored, hclient⟩

/-! One block of four bytes in either direction. -/

def sampleBoth : Opts := ⟨5, 4, 1, false, true, false⟩

def sampleEnds : DataSocket × DataSocket := (sampleSocket [0, 0, 0, 0], sampleSocket (sampleCookie.1 ++ [0, 0, 0, 0]))

theorem sampleEnds_completes :
    (clientPlan sampleBoth sampleCookie).Completes ⟨[⟨0, 0, 5⟩, ⟨5000000000, 0, 0⟩], 5000000000⟩ :=
  ⟨by decide +kernel, offered_whole_iff.1 (by decide +kernel)⟩

theorem sampleEnds_links : (clientPlan sampleBoth sampleCookie).Links sampleEnds.1 sampleEnds.2 :=
  ⟨⟨[0, 0, 0, 0], by decide +kernel, fun _ => ⟨by decide +kernel, rfl, sampleEnds_completes⟩⟩,
    fun _ => ⟨by decide +kernel, rfl, sampleEnds_completes⟩⟩

theorem whole_test_both :
    ∃ locals, Mirrored sampleBoth sampleCookie [sampleEnds] locals (toResults [sentStats, readStats 5000000000 4]) ∧
      clientRun (decodeAmong (fun r => utf8 r.json) [toResults [sentStats, readStats 5000000000 4]]) sampleBoth
          sampleCookie (byteByByte (framed (utf8 (toResults [sentStats, readStats 5000000000 4]).json)))
          [sampleEnds.1] =
        some (locals, toResults [sentStats, readStats 5000000000 4], .bidirectional) := by
  obtain ⟨locals, remote, hserver, hmirrored, hprints⟩ :=
    whole_test (fun p => utf8 p.json) (decodeAmong (fun p => utf8 p.json) [sampleBoth.params sampleCookie])
      (fun r => utf8 r.json) (decodeAmong (fun r => utf8 r.json) [toResults [sentStats, readStats 5000000000 4]]) sampleBoth
      sampleCookie [sampleEnds] [sampleSocket [9]]
      (byteByByte (framed (utf8 (sampleBoth.params sampleCookie).json))) rfl
      (fun p hp => by rw [List.mem_singleton.1 hp]; exact sampleEnds_links) (by decide +kernel) (by decide +kernel)
      (by rw [byteByByte_bytes])
  obtain rfl : toResults [sentStats, readStats 5000000000 4] = remote := Option.some.inj (hserver ▸ by decide +kernel)
  exact ⟨locals, hmirrored, hprints _ (by decide +kernel) (by decide +kernel) (by rw [byteByByte_bytes])⟩

end Netperf.P3
