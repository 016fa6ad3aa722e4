import Netperf.Lib.Maps
/-!
# Constants, control messages and results

The data of `consts.rs`, `data.rs`, `control.rs` and `netperf-core`'s
`stats.rs`. A `HashMap` is a `Map`: it has no order, so two maps with the same
entries are equal.
-/

namespace Netperf

open Maps

/-! ## Constants -/

def internalProtBuffer : Nat := 5

def mb : Nat := 1024 * 1024

def maxControlMessage : Nat := 20 * mb

/-- `size_of::<u32>()` -/
def messageLengthSizeBytes : Nat := 4

/-! ## Results -/

inductive Direction where
  | clientToServer
  | serverToClient
  | bidirectional
deriving DecidableEq, Repr

structure Dist where
  count : Nat
  min : Nat
  p50 : Nat
  p90 : Nat
  p99 : Nat
  p100 : Nat
  mean : Nat
deriving DecidableEq

structure LatencyStats where
  intervalNs : Dist
  throughputBps : Dist
  clockBaselineNs : Nat
  warmupDiscarded : Nat
deriving DecidableEq

structure StreamStats where
  sender : Bool
  durationMillis : Nat
  bytesTransferred : Nat
  syscalls : Nat
  latency : Option LatencyStats
deriving DecidableEq

structure TestResults where
  streams : Map StreamStats
deriving DecidableEq

/-! ## Parameters -/

inductive Role where
  | server
  | client
deriving DecidableEq, Repr

structure TestParameters where
  direction : Direction
  omitSeconds : UInt32
  timeSeconds : UInt64
  parallel : UInt16
  blockSize : Nat
  clientVersion : String
  socketBuffers : Option Nat
  measureLatency : Bool
deriving DecidableEq

/-! ## The control protocol -/

inductive State where
  | testStart
  | createStreams (cookie : String)
  | running
  | exchangeResults
  | displayResults
deriving DecidableEq

inductive ServerError where
  | accessDenied (reason : String)
  | cannotAcceptStream (reason : String)
deriving DecidableEq

inductive ClientError where
  | cannotCreateStream (reason : String)
deriving DecidableEq

inductive ClientMessage where
  | hello (cookie : String)
  | sendParameters (params : TestParameters)
  | sendResults (results : TestResults)
deriving DecidableEq

inductive ServerMessage where
  | welcome
  | setState (state : State)
  | sendResults (results : TestResults)
deriving DecidableEq

inductive ClientEnvelope where
  | clientMessage (m : ClientMessage)
  | error (e : ClientError)
deriving DecidableEq

inductive ServerEnvelope where
  | serverMessage (m : ServerMessage)
  | error (e : ServerError)
deriving DecidableEq

/-! ## Errors -/

/-- An `anyhow::Error`: one of the protocol's own errors, an I/O error, or a
message (a `bail!` or an added context). -/
inductive AnyError where
  | server (e : ServerError)
  | client (e : ClientError)
  | io
  | message (text : String)
deriving DecidableEq

/-- Extracts the `ServerError` of a failed result. -/
def toServerError {α : Type} : Except AnyError α → Option ServerError
  | .error (.server e) => some e
  | _ => none

/-- Extracts the `ClientError` of a failed result. -/
def toClientError {α : Type} : Except AnyError α → Option ClientError
  | .error (.client e) => some e
  | _ => none

end Netperf
