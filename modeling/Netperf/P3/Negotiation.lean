import Netperf.Json
import Netperf.P3.Streams
/-!
# The two ends agree on a p3 test

The server learns the test from the parameters alone. Its plan is the mirror of
the client's, however the control bytes arrive, and the client reads the results
that the server sent.
-/

namespace Netperf.P3

open Frames

/-! ## The plans -/

theorem serverPlan_params (o : Opts) (cb : Cookie) : serverPlan (o.params cb) = (clientPlan o cb).mirror := by
  have hroles := roles_mirror o.dir
  have hblock : o.length.toUInt64.toUInt32 = o.length := UInt32.toUInt32_toUInt64 _
  have hcookie : toLeBytes (fromLeBytes cb) = cb := toLeBytes_fromLeBytes cb
  simp only [serverPlan, Opts.params, clientPlan, Plan.mirror, hroles, hblock, hcookie, Prod.fst_swap, Prod.snd_swap]

/-- In one direction exactly one end sends, and it is the other that receives. -/
theorem clientPlan_oneWay {o : Opts} {cb : Cookie} (h : o.bidir = false) :
    (clientPlan o cb).receiving = !(clientPlan o cb).sending := by
  unfold clientPlan Opts.dir
  rw [h]
  cases o.reverse <;> rfl

/-! ## The runs -/

section
variable {decodeP : List UInt8 → Option Params} {decodeR : List UInt8 → Option TestResults} {o : Opts} {cb : Cookie}
  {ctrl back : Source} {conns datas : List DataSocket} {results : TestResults}

theorem serverRun_eq (h : recvMsg decodeP ctrl = .returned (some (o.params cb)))
    (hdatas : acceptDatas o.parallel.toNat conns = some datas) :
    serverRun decodeP ctrl conns = (runStreams datas true (clientPlan o cb).mirror).map toResults := by
  have hpar : (o.params cb).parallel = o.parallel := rfl
  unfold serverRun serverStreams
  simp only [h, hpar, hdatas, Option.bind_some, serverPlan_params]

theorem clientRun_eq (h : recvMsg decodeR back = .returned (some results)) :
    clientRun decodeR o cb back datas =
      (runStreams datas false (clientPlan o cb)).map (fun ss => (toResults ss, results, directionOf o.dir)) := by
  unfold clientRun
  rw [h]
  cases runStreams datas false (clientPlan o cb) <;> rfl

end

/-- For every configuration of the client and all pieces in which the control
bytes arrive: the server reads the client's parameters, plans the mirror of the
client's plan and expects the cookie that every connection of the client begins
with; it runs that plan on as many connections as the client opens; and the
client ends with the results that the server sent. -/
theorem negotiation_agrees (encodeP : Params → List UInt8) (decodeP : List UInt8 → Option Params)
    (encodeR : TestResults → List UInt8) (decodeR : List UInt8 → Option TestResults) (o : Opts) (cb : Cookie)
    (results : TestResults) (ctrl back : Source)
    (hp : decodeP (encodeP (o.params cb)) = some (o.params cb)) (hplen : (encodeP (o.params cb)).length < 2 ^ 32 - 4)
    (hr : decodeR (encodeR results) = some results) (hrlen : (encodeR results).length < 2 ^ 32 - 4)
    (hctrl : framed (encodeP (o.params cb)) <+: ctrl.bytes) (hback : framed (encodeR results) <+: back.bytes) :
    recvMsg decodeP ctrl = .returned (some (o.params cb)) ∧
      serverPlan (o.params cb) = (clientPlan o cb).mirror ∧
      (∀ sock, ((clientPlan o cb).clientConn sock).head = (serverPlan (o.params cb)).cookie.1) ∧
      (∀ conns datas, acceptDatas o.parallel.toNat conns = some datas →
        serverRun decodeP ctrl conns = (runStreams datas true (clientPlan o cb).mirror).map toResults) ∧
      recvMsg decodeR back = .returned (some results) ∧
      ∀ datas, clientRun decodeR o cb back datas =
        (runStreams datas false (clientPlan o cb)).map (fun ss => (toResults ss, results, directionOf o.dir)) := by
  have hparams : recvMsg decodeP ctrl = .returned (some (o.params cb)) := by rw [recvMsg_framed hplen hctrl, hp]
  have hresults : recvMsg decodeR back = .returned (some results) := by rw [recvMsg_framed hrlen hback, hr]
  refine ⟨hparams, serverPlan_params o cb, fun sock => ?_, fun conns datas hdatas => serverRun_eq hparams hdatas, hresults,
    fun datas => clientRun_eq hresults⟩
  rw [serverPlan_params]
  rfl

/-! ## A run on the texts of `serde_json` -/

def Params.json (p : Params) : String :=
  jsonObject [("dir", toString p.dir.toNat), ("secs", toString p.secs.toNat), ("block", toString p.block.toNat),
    ("parallel", toString p.parallel.toNat), ("cookie", toString p.cookie.toNat),
    ("measure_latency", jsonBool p.measureLatency)]

/-- A stream that arrives byte by byte. -/
def byteByByte (bytes : List UInt8) : Source := ⟨bytes.map (fun b => ⟨[b], by simp⟩), false⟩

theorem byteByByte_bytes (bytes : List UInt8) : (byteByByte bytes).bytes = bytes := by
  unfold byteByByte Source.bytes
  induction bytes with
  | nil => rfl
  | cons b bytes ih => simp [ih]

def sampleOpts : Opts := ⟨5, 65536, 2, true, false, false⟩

def sampleCookie : Cookie := ⟨[1, 2, 3, 4, 5, 6, 7, 8], rfl⟩

def sampleResults : TestResults := toResults [readStats 5000000000 131072]

theorem negotiation_agrees_reverse :
    recvMsg (decodeAmong (fun p => utf8 (Params.json p)) [sampleOpts.params sampleCookie])
        (byteByByte (framed (utf8 (sampleOpts.params sampleCookie).json))) =
      .returned (some (sampleOpts.params sampleCookie)) ∧
    (serverPlan (sampleOpts.params sampleCookie)).cookie = sampleCookie :=
  have h := negotiation_agrees (fun p => utf8 p.json) (decodeAmong (fun p => utf8 p.json) [sampleOpts.params sampleCookie])
    (fun r => utf8 r.json) (decodeAmong (fun r => utf8 r.json) [sampleResults]) sampleOpts sampleCookie sampleResults
    (byteByByte (framed (utf8 (sampleOpts.params sampleCookie).json))) (byteByByte (framed (utf8 sampleResults.json)))
    (by decide +kernel) (by decide +kernel) (by decide +kernel) (by decide +kernel)
    (by rw [byteByByte_bytes]) (by rw [byteByByte_bytes])
  ⟨h.1, by rw [h.2.1]; rfl⟩

end Netperf.P3
