import Netperf.P3.DataPlane
import Netperf.Lib.Lists
/-!
# The two ends of a p3 test

`Component::run` on either side: the plan that each end makes of the parameters,
the data connections it runs side by side, and the results it makes of them.
-/

namespace Netperf.P3

open Frames Maps

/-! ## The client's end of a connection -/

/-- What the client's send stream begins with, and what `client_conn` returns. -/
structure Opened where
  head : List UInt8
  stats : Option (List StreamStats)

def recvAll (sock : DataSocket) : Option StreamStats :=
  readData sock.inbound.closed sock.inbound.chunks sock.readNs 0

def clientConn (cookie : Cookie) (sendData recvData : Bool) (block secs : Nat) (measure : Bool) (sock : DataSocket) :
    Opened :=
  { head := cookie.1
    stats :=
      match sendData, recvData with
      | true, true =>
        (writeData block secs measure sock.outbound).bind (fun s => (recvAll sock).map (fun r => [s, r]))
      | true, false => (writeData block secs measure sock.outbound).map (fun s => [s])
      -- the stream that carried the cookie stays open, so `select` waits for the receiver
      | false, true => (recvAll sock).map (fun r => [r])
      | false, false => some [] }

/-! ## Plans -/

/-- What an end runs its streams with. -/
structure Plan where
  parallel : UInt32
  cookie : Cookie
  sending : Bool
  receiving : Bool
  block : UInt32
  secs : UInt64
  measure : Bool
deriving DecidableEq

/-- The plan of the other end. -/
def Plan.mirror (pl : Plan) : Plan := { pl with sending := pl.receiving, receiving := pl.sending }

/-- The options of a client; `length` is a `usize`. -/
structure Opts where
  time : UInt64
  length : UInt32
  parallel : UInt32
  reverse : Bool
  bidir : Bool
  latency : Bool
deriving DecidableEq

def Opts.dir (o : Opts) : UInt8 := if o.bidir then dirBidir else if o.reverse then dirReverse else dirForward

/-- The parameters the client sends, `cb` being its cookie. -/
def Opts.params (o : Opts) (cb : Cookie) : Params :=
  { dir := o.dir
    secs := o.time
    block := o.length.toUInt64
    parallel := o.parallel
    cookie := fromLeBytes cb
    measureLatency := o.latency }

def clientPlan (o : Opts) (cb : Cookie) : Plan :=
  { parallel := o.parallel
    cookie := cb
    sending := (roles o.dir false).1
    receiving := (roles o.dir false).2
    block := o.length
    secs := o.time
    measure := o.latency }

def serverPlan (p : Params) : Plan :=
  { parallel := p.parallel
    cookie := toLeBytes p.cookie
    sending := (roles p.dir true).1
    receiving := (roles p.dir true).2
    -- `p.block as usize`
    block := p.block.toUInt32
    secs := p.secs
    measure := p.measureLatency }

/-! ## Streams -/

def Plan.clientConn (pl : Plan) (sock : DataSocket) : Opened :=
  P3.clientConn pl.cookie pl.sending pl.receiving pl.block.toNat pl.secs.toNat pl.measure sock

def Plan.serverConn (pl : Plan) (sock : DataSocket) : Option Served :=
  P3.serverConn pl.cookie pl.receiving pl.sending pl.block.toNat pl.secs.toNat pl.measure sock

/-- The future of `run_streams` for one connection. -/
def Plan.conn (pl : Plan) (isServer : Bool) (sock : DataSocket) : Option (List StreamStats) :=
  if isServer then (pl.serverConn sock).bind (fun v => v.stats) else (pl.clientConn sock).stats

/-- `join_all` of the futures. -/
def joinAll (socks : List DataSocket) (isServer : Bool) (pl : Plan) : Option (List (List StreamStats)) :=
  socks.mapM (pl.conn isServer)

def runStreams (socks : List DataSocket) (isServer : Bool) (pl : Plan) : Option (List StreamStats) :=
  (joinAll socks isServer pl).map List.flatten

def toResults (streams : List StreamStats) : TestResults :=
  ⟨streams.zipIdx.foldl (fun m e => m.insert e.2 e.1) ∅⟩

theorem toResults_lookup (streams : List StreamStats) (id : Nat) : (toResults streams).streams.lookup id = streams[id]? := by
  induction streams using List.reverseRecOn with
  | nil => simp [toResults]
  | append_singleton ss s ih =>
    have hstep : (toResults (ss ++ [s])).streams = (toResults ss).streams.insert ss.length s := by
      simp [toResults, List.zipIdx_append]
    apply Option.ext
    intro x
    rw [hstep, lookup_insert_iff, ih, Lists.getElem?_concat_iff]
    constructor
    · rintro (⟨hid, hx⟩ | ⟨-, hx⟩)
      · exact .inr ⟨hid, hx⟩
      · exact .inl hx
    · rintro (hx | ⟨hid, hx⟩)
      · exact .inr ⟨Nat.ne_of_lt (Lists.lt_of_getElem? hx), hx⟩
      · exact .inl ⟨hid, hx⟩

/-! ## The server -/

/-- The connections it takes for the data, in the order in which they arrive. -/
def acceptDatas : Nat → List DataSocket → Option (List DataSocket)
  | 0, _ => some []
  | _ + 1, [] => none
  | n + 1, c :: cs => (acceptDatas n cs).map (fun datas => c :: datas)

def serverStreams (p : Params) (conns : List DataSocket) : Option (List StreamStats) :=
  (acceptDatas p.parallel.toNat conns).bind (fun datas => runStreams datas true (serverPlan p))

/-- The results it sends, unless it fails or waits before that; `conns` arrive
after the control connection. -/
def serverRun (decode : List UInt8 → Option Params) (ctrl : Source) (conns : List DataSocket) : Option TestResults :=
  match recvMsg decode ctrl with
  | .returned (some p) => (serverStreams p conns).map toResults
  | _ => none

theorem acceptDatas_eq {n : Nat} {conns : List DataSocket} (h : n ≤ conns.length) :
    acceptDatas n conns = some (conns.take n) := by
  induction conns generalizing n with
  | nil =>
    obtain rfl : n = 0 := Nat.le_zero.1 h
    rfl
  | cons c cs ih =>
    cases n with
    | zero => rfl
    | succ n =>
      rw [acceptDatas, ih (Nat.le_of_succ_le_succ h)]
      rfl

/-! ## The client -/

/-- What it prints: its own results, the server's and the direction. -/
def clientRun (decode : List UInt8 → Option TestResults) (o : Opts) (cb : Cookie) (back : Source)
    (datas : List DataSocket) : Option (TestResults × TestResults × Direction) :=
  ((runStreams datas false (clientPlan o cb)).map toResults).bind (fun locals =>
    match recvMsg decode back with
    | .returned remote => some (locals, remote.getD ⟨∅⟩, directionOf o.dir)
    | _ => none)

end Netperf.P3
