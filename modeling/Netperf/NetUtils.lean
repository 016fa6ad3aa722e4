import Netperf.Control
import Netperf.Lib.Frames
/-!
# Control framing (`net_utils.rs`)

`serde_json` is not under the repository: its encoding and decoding of an
envelope are parameters `encode` and `decode`. What the code relies on, that
decoding undoes encoding, is a hypothesis of the theorems that need it.
-/

namespace Netperf

open Frames

/-- The bytes `send_control_message` writes, `none` when its assertion on the
payload's length fails. -/
def sendControlMessage {α : Type} (encode : α → List UInt8) (message : α) : Option (List UInt8) :=
  let payload := encode message
  if payload.length ≤ 2 ^ 32 - 1 then some (putU32 payload.length ++ payload) else none

def clientSendMessage (encode : ClientEnvelope → List UInt8) (message : ClientMessage) : Option (List UInt8) :=
  sendControlMessage encode (.clientMessage message)

def serverSendMessage (encode : ServerEnvelope → List UInt8) (message : ServerMessage) : Option (List UInt8) :=
  sendControlMessage encode (.serverMessage message)

/-- How a read function ends: with a value or an error, and the stream after
it, or not at all while the peer is silent, or with a panic. -/
inductive Read (α : Type) where
  | ok (value : α) (rest : Source)
  | err (e : AnyError) (rest : Source)
  | pending
  | panic

def headerError (messageSize : Nat) : AnyError :=
  .message s!"Unusually large protocol negotiation header: {messageSize / 1024}MB, max allowed: {maxControlMessage}MB"

def closedError : AnyError := .message "Connected was closed by peer."

def jsonError : AnyError := .message "Invalid protocol, could not deserialise JSON"

def readControlMessage {α : Type} (decode : List UInt8 → Option α) (stream : Source) : Read α :=
  match stream.fill messageLengthSizeBytes with
  | .pending => .pending
  | .underflow => .panic
  | .eof => .err .io ⟨[], true⟩
  | .filled header stream =>
    let messageSize := getU32 header
    if maxControlMessage < messageSize then .err (headerError messageSize) stream
    else
      match stream.fill messageSize with
      | .pending => .pending
      | .underflow => .panic
      | .eof => .err closedError ⟨[], true⟩
      | .filled buf stream =>
        if messageSize ≠ buf.length then .panic
        else
          match decode buf with
          | none => .err jsonError stream
          | some obj => .ok obj stream

/-- The result a reader makes of an envelope: a message, or the peer's error. -/
def ClientEnvelope.result : ClientEnvelope → Except AnyError ClientMessage
  | .clientMessage m => .ok m
  | .error e => .error (.client e)

def ServerEnvelope.result : ServerEnvelope → Except AnyError ServerMessage
  | .serverMessage m => .ok m
  | .error e => .error (.server e)

/-- Reads an envelope and unpacks it. -/
def readMessage {α β : Type} (decode : List UInt8 → Option α) (result : α → Except AnyError β)
    (stream : Source) : Read β :=
  match readControlMessage decode stream with
  | .ok envelope rest =>
    match result envelope with
    | .ok m => .ok m rest
    | .error e => .err e rest
  | .err e rest => .err e rest
  | .pending => .pending
  | .panic => .panic

def serverReadMessage (decode : List UInt8 → Option ClientEnvelope) (stream : Source) : Read ClientMessage :=
  readMessage decode ClientEnvelope.result stream

def clientReadMessage (decode : List UInt8 → Option ServerEnvelope) (stream : Source) : Read ServerMessage :=
  readMessage decode ServerEnvelope.result stream

/-! ## Reading one frame -/

section
variable {α β : Type} {encode : α → List UInt8} {decode : List UInt8 → Option α}

theorem maxControlMessage_lt : maxControlMessage < 2 ^ 32 := by decide

theorem sendControlMessage_of_le {m : α} (h : (encode m).length ≤ maxControlMessage) :
    sendControlMessage encode m = some (frame (encode m)) := by
  have hm := maxControlMessage_lt
  exact if_pos (by omega)

theorem sendControlMessage_eq {m : α} {bs : List UInt8} (h : sendControlMessage encode m = some bs) :
    bs = frame (encode m) ∧ (encode m).length < 2 ^ 32 := by
  simp only [sendControlMessage, Option.ite_none_right_eq_some, Option.some.injEq] at h
  exact ⟨h.2.symm, by omega⟩

/-- The length that the first bytes of a stream announce. -/
def declared (bytes : List UInt8) : Nat := getU32 (bytes.take messageLengthSizeBytes)

section
variable (decode : List UInt8 → Option α) (stream : Source)

theorem read_short_header (h : stream.bytes.length < messageLengthSizeBytes) :
    readControlMessage decode stream = if stream.closed then .err .io ⟨[], true⟩ else .pending := by
  unfold readControlMessage
  rw [fill_short stream h]
  cases stream.closed <;> rfl

theorem read_oversized (h4 : messageLengthSizeBytes ≤ stream.bytes.length)
    (h : maxControlMessage < declared stream.bytes) :
    ∃ rest, readControlMessage decode stream = .err (headerError (declared stream.bytes)) rest ∧
      rest.bytes = stream.bytes.drop messageLengthSizeBytes := by
  obtain ⟨rest, hfill, hbytes, -⟩ := fill_enough stream messageLengthSizeBytes h4
  refine ⟨rest, ?_, hbytes⟩
  unfold readControlMessage
  rw [hfill]
  exact if_pos h

theorem read_short_payload (h4 : messageLengthSizeBytes ≤ stream.bytes.length)
    (hmax : declared stream.bytes ≤ maxControlMessage)
    (h : stream.bytes.length < messageLengthSizeBytes + declared stream.bytes) :
    readControlMessage decode stream = if stream.closed then .err closedError ⟨[], true⟩ else .pending := by
  obtain ⟨rest, hfill, hbytes, hclosed⟩ := fill_enough stream messageLengthSizeBytes h4
  have hshort : rest.bytes.length < declared stream.bytes := by
    rw [hbytes, List.length_drop]
    omega
  have hfill' := fill_short rest hshort
  unfold declared at hmax hfill'
  unfold readControlMessage
  simp only [hfill, if_neg (Nat.not_lt.2 hmax), hfill', hclosed]
  cases stream.closed <;> rfl

/-- A frame that is there is taken off the stream, and its payload decoded. -/
theorem read_payload (hmax : declared stream.bytes ≤ maxControlMessage)
    (h : messageLengthSizeBytes + declared stream.bytes ≤ stream.bytes.length) :
    ∃ rest, rest.bytes = stream.bytes.drop (messageLengthSizeBytes + declared stream.bytes) ∧
      rest.closed = stream.closed ∧
      readControlMessage decode stream =
        match decode ((stream.bytes.drop messageLengthSizeBytes).take (declared stream.bytes)) with
        | none => .err jsonError rest
        | some obj => .ok obj rest := by
  obtain ⟨s, hfill, hbytes, hclosed⟩ := fill_enough stream messageLengthSizeBytes (by omega)
  have hlen : declared stream.bytes ≤ s.bytes.length := by
    rw [hbytes, List.length_drop]
    omega
  obtain ⟨rest, hfill', hrest, hclosed'⟩ := fill_enough s (declared stream.bytes) hlen
  refine ⟨rest, ?_, hclosed'.trans hclosed, ?_⟩
  · rw [hrest, hbytes, List.drop_drop]
  · rw [← hbytes]
    have htake : (s.bytes.take (declared stream.bytes)).length = declared stream.bytes := by
      rw [List.length_take, Nat.min_eq_left hlen]
    unfold declared at hmax hfill' htake ⊢
    unfold readControlMessage
    simp only [hfill, if_neg (Nat.not_lt.2 hmax), hfill', htake, ne_eq, not_true_eq_false, if_false]

end

/-- The reader of a frame within the limit decodes exactly its payload and
leaves exactly the bytes after it, however they arrive. -/
theorem readControlMessage_frame (decode : List UInt8 → Option α) {payload back : List UInt8}
    (hlen : payload.length ≤ maxControlMessage) (stream : Source) (h : stream.bytes = frame payload ++ back) :
    ∃ rest, rest.bytes = back ∧ rest.closed = stream.closed ∧
      readControlMessage decode stream = match decode payload with
        | none => .err jsonError rest
        | some obj => .ok obj rest := by
  have hm := maxControlMessage_lt
  have hbytes : stream.bytes = putU32 payload.length ++ (payload ++ back) := by rw [h, frame, List.append_assoc]
  have hn : declared stream.bytes = payload.length := by
    rw [hbytes]
    exact getU32_putU32 (by omega)
  have hdrop : stream.bytes.drop messageLengthSizeBytes = payload ++ back := by
    rw [hbytes]
    rfl
  obtain ⟨rest, hrest, hclosed, hread⟩ := read_payload decode stream (by omega) (by
    rw [hn, hbytes, List.length_append, putU32_length, List.length_append]
    unfold messageLengthSizeBytes
    omega)
  rw [hn, hdrop, List.take_left] at hread
  refine ⟨rest, ?_, hclosed, hread⟩
  rw [hrest, hn, ← List.drop_drop, hdrop, List.drop_left]

/-- Reading back what was sent. -/
theorem readMessage_frame (result : α → Except AnyError β) {m : α} {back : List UInt8} (hser : decode (encode m) = some m)
    (hlen : (encode m).length ≤ maxControlMessage) (stream : Source)
    (h : stream.bytes = frame (encode m) ++ back) :
    ∃ rest, rest.bytes = back ∧ rest.closed = stream.closed ∧
      readMessage decode result stream = match result m with
        | .ok v => .ok v rest
        | .error e => .err e rest := by
  obtain ⟨rest, hb, hc, hr⟩ := readControlMessage_frame decode hlen stream h
  rw [hser] at hr
  exact ⟨rest, hb, hc, by simp only [readMessage, hr]⟩

/-- A stream that holds the bytes it announces begins with a frame. -/
theorem bytes_split {bytes : List UInt8} (h : messageLengthSizeBytes + declared bytes ≤ bytes.length) :
    frame ((bytes.drop messageLengthSizeBytes).take (declared bytes)) ++
      bytes.drop (messageLengthSizeBytes + declared bytes) = bytes := by
  have hlen : ((bytes.drop messageLengthSizeBytes).take (declared bytes)).length = declared bytes := by
    rw [List.length_take, List.length_drop, Nat.min_eq_left (by omega)]
  have h4 : (bytes.take messageLengthSizeBytes).length = 4 := by
    rw [List.length_take, Nat.min_eq_left (by omega)]
    rfl
  have hput : putU32 (declared bytes) = bytes.take messageLengthSizeBytes := putU32_getU32 h4
  rw [frame, hlen, hput, List.append_assoc, ← List.drop_drop, List.take_append_drop, List.take_append_drop]

/-- The three ways a read can end: it decodes the payload of the first frame, it
fails, or it waits for bytes of a stream that is still open. -/
theorem readControlMessage_cases (decode : List UInt8 → Option α) (stream : Source) :
    (∃ payload rest obj, stream.bytes = frame payload ++ rest.bytes ∧ payload.length ≤ maxControlMessage ∧
        decode payload = some obj ∧ readControlMessage decode stream = .ok obj rest) ∨
      (∃ e rest, readControlMessage decode stream = .err e rest) ∨
      (readControlMessage decode stream = .pending ∧ stream.closed = false) := by
  by_cases h4 : stream.bytes.length < messageLengthSizeBytes
  · rw [read_short_header decode stream h4]
    cases hc : stream.closed with
    | true => exact .inr (.inl ⟨_, _, rfl⟩)
    | false => exact .inr (.inr ⟨rfl, rfl⟩)
  by_cases hmax : maxControlMessage < declared stream.bytes
  · obtain ⟨rest, hread, -⟩ := read_oversized decode stream (Nat.le_of_not_lt h4) hmax
    exact .inr (.inl ⟨_, _, hread⟩)
  by_cases hshort : stream.bytes.length < messageLengthSizeBytes + declared stream.bytes
  · rw [read_short_payload decode stream (by omega) (by omega) hshort]
    cases hc : stream.closed with
    | true => exact .inr (.inl ⟨_, _, rfl⟩)
    | false => exact .inr (.inr ⟨rfl, rfl⟩)
  obtain ⟨rest, hrest, -, hread⟩ := read_payload decode stream (by omega) (by omega)
  rw [hread]
  cases hd : decode ((stream.bytes.drop messageLengthSizeBytes).take (declared stream.bytes)) with
  | none => exact .inr (.inl ⟨_, _, rfl⟩)
  | some obj => exact .inl ⟨_, rest, obj, by rw [hrest, bytes_split (by omega)], by simp; omega, hd, rfl⟩

/-- A read ends, or waits for a peer that has not closed the stream. -/
def Read.Settles (stream : Source) : Read α → Prop
  | .ok _ _ | .err _ _ => True
  | .pending => stream.closed = false
  | .panic => False

theorem readMessage_settles (decode : List UInt8 → Option α) (result : α → Except AnyError β) (stream : Source) :
    (readMessage decode result stream).Settles stream := by
  unfold readMessage
  rcases readControlMessage_cases decode stream with ⟨_, _, obj, -, -, -, h⟩ | ⟨e, rest, h⟩ | ⟨h, hc⟩
  · simp only [h]
    cases result obj <;> trivial
  · simp only [h]
    trivial
  · simp only [h]
    exact hc

end

end Netperf
