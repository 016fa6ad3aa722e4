import Netperf.Control
import Mathlib.Data.Finset.Lattice.Fold
import Mathlib.Order.Lattice.Nat
/-!
# The JSON text of an envelope

What `serde_json::to_string` writes for the envelopes: enums externally
tagged, struct fields in declaration order, map keys as strings. The order of a
map's entries is the hash map's; here it is the order of the keys. The theorems
take the codec as a parameter, and this is the one their concrete runs use.
-/

namespace Netperf

def hexDigit (n : Nat) : Char := if n < 10 then Char.ofNat (48 + n) else Char.ofNat (87 + n)

def jsonChar (c : Char) : List Char :=
  if c = Char.ofNat 34 then ['\\', Char.ofNat 34]
  else if c = '\\' then ['\\', '\\']
  else if c = Char.ofNat 8 then ['\\', 'b']
  else if c = Char.ofNat 12 then ['\\', 'f']
  else if c = '\n' then ['\\', 'n']
  else if c = '\r' then ['\\', 'r']
  else if c = '\t' then ['\\', 't']
  else if c.toNat < 32 then ['\\', 'u', '0', '0', hexDigit (c.toNat / 16), hexDigit (c.toNat % 16)]
  else [c]

def jsonString (s : String) : String := "\"" ++ String.ofList (s.toList.flatMap jsonChar) ++ "\""

def jsonBool (b : Bool) : String := if b then "true" else "false"

def jsonOption {α : Type} (f : α → String) : Option α → String
  | none => "null"
  | some a => f a

def jsonFields : List (String × String) → String
  | [] => ""
  | [(k, v)] => "\"" ++ k ++ "\":" ++ v
  | (k, v) :: rest => "\"" ++ k ++ "\":" ++ v ++ "," ++ jsonFields rest

def jsonObject (fields : List (String × String)) : String := "\x7b" ++ jsonFields fields ++ "\x7d"

def Direction.json : Direction → String
  | .clientToServer => "\"ClientToServer\""
  | .serverToClient => "\"ServerToClient\""
  | .bidirectional => "\"Bidirectional\""

def Dist.json (d : Dist) : String :=
  jsonObject [("count", toString d.count), ("min", toString d.min), ("p50", toString d.p50), ("p90", toString d.p90),
    ("p99", toString d.p99), ("p100", toString d.p100), ("mean", toString d.mean)]

def LatencyStats.json (l : LatencyStats) : String :=
  jsonObject [("interval_ns", l.intervalNs.json), ("throughput_bps", l.throughputBps.json),
    ("clock_baseline_ns", toString l.clockBaselineNs), ("warmup_discarded", toString l.warmupDiscarded)]

def StreamStats.json (s : StreamStats) : String :=
  jsonObject [("sender", jsonBool s.sender), ("duration_millis", toString s.durationMillis),
    ("bytes_transferred", toString s.bytesTransferred), ("syscalls", toString s.syscalls),
    ("latency", jsonOption LatencyStats.json s.latency)]

def TestResults.json (r : TestResults) : String :=
  let ids := List.range (r.streams.keys.sup id + 1)
  jsonObject [("streams", jsonObject (ids.filterMap (fun i =>
    (r.streams.lookup i).map (fun s => (toString i, s.json)))))]

def TestParameters.json (p : TestParameters) : String :=
  jsonObject [("direction", p.direction.json), ("omit_seconds", toString p.omitSeconds.toNat),
    ("time_seconds", toString p.timeSeconds.toNat), ("parallel", toString p.parallel.toNat),
    ("block_size", toString p.blockSize), ("client_version", jsonString p.clientVersion),
    ("socket_buffers", jsonOption toString p.socketBuffers), ("measure_latency", jsonBool p.measureLatency)]

def State.json : State → String
  | .testStart => "\"TestStart\""
  | .createStreams cookie => jsonObject [("CreateStreams", jsonObject [("cookie", jsonString cookie)])]
  | .running => "\"Running\""
  | .exchangeResults => "\"ExchangeResults\""
  | .displayResults => "\"DisplayResults\""

def ClientMessage.json : ClientMessage → String
  | .hello cookie => jsonObject [("Hello", jsonObject [("cookie", jsonString cookie)])]
  | .sendParameters p => jsonObject [("SendParameters", p.json)]
  | .sendResults r => jsonObject [("SendResults", r.json)]

def ServerMessage.json : ServerMessage → String
  | .welcome => "\"Welcome\""
  | .setState s => jsonObject [("SetState", s.json)]
  | .sendResults r => jsonObject [("SendResults", r.json)]

def ClientEnvelope.json : ClientEnvelope → String
  | .clientMessage m => jsonObject [("ClientMessage", m.json)]
  | .error (.cannotCreateStream t) => jsonObject [("Error", jsonObject [("CannotCreateStream", jsonString t)])]

def ServerEnvelope.json : ServerEnvelope → String
  | .serverMessage m => jsonObject [("ServerMessage", m.json)]
  | .error (.accessDenied t) => jsonObject [("Error", jsonObject [("AccessDenied", jsonString t)])]
  | .error (.cannotAcceptStream t) => jsonObject [("Error", jsonObject [("CannotAcceptStream", jsonString t)])]

def utf8 (s : String) : List UInt8 := s.toUTF8.data.toList

def ClientEnvelope.encode (e : ClientEnvelope) : List UInt8 := utf8 e.json

def ServerEnvelope.encode (e : ServerEnvelope) : List UInt8 := utf8 e.json

/-- A decoder for texts that stand for one of `es`. -/
def decodeAmong {α : Type} (encode : α → List UInt8) (es : List α) (bytes : List UInt8) : Option α :=
  es.find? (fun e => encode e = bytes)

example : ServerEnvelope.json (.serverMessage (.setState (.createStreams "a\"b"))) =
    "\x7b\"ServerMessage\":\x7b\"SetState\":\x7b\"CreateStreams\":\x7b\"cookie\":\"a\\\"b\"\x7d\x7d\x7d\x7d" := by
  decide

end Netperf
