import Netperf.Json
import Netperf.NetUtils
/-!
# What the control reader accepts

The frames that `read_control_message` accepts and what it takes off the stream
for each, and which of the frames that `send_control_message` writes are among them.
-/

namespace Netperf

open Frames

variable {α : Type} {decode : List UInt8 → Option α} {stream : Source}

/-- The bytes begin with a frame within the limit whose payload decodes to `m`. -/
def Framed (decode : List UInt8 → Option α) (bytes : List UInt8) (m : α) : Prop :=
  ∃ header payload back, bytes = header ++ payload ++ back ∧ header.length = 4 ∧ getU32 header = payload.length ∧
    payload.length ≤ maxControlMessage ∧ decode payload = some m

/-- What ends a stream too early for a frame within the limit. -/
def EndsEarly (bytes : List UInt8) : Prop :=
  bytes.length < messageLengthSizeBytes ∨
    (declared bytes ≤ maxControlMessage ∧ bytes.length < messageLengthSizeBytes + declared bytes)

theorem Framed.payload {bytes : List UInt8} {m : α} (h : Framed decode bytes m) :
    declared bytes ≤ maxControlMessage ∧ messageLengthSizeBytes + declared bytes ≤ bytes.length ∧
      decode ((bytes.drop messageLengthSizeBytes).take (declared bytes)) = some m := by
  obtain ⟨header, payload, back, rfl, h4, hlen, hmax, hdec⟩ := h
  have hdrop : (header ++ payload ++ back).drop messageLengthSizeBytes = payload ++ back := by
    rw [List.append_assoc]
    exact List.drop_left' h4
  have hn : declared (header ++ payload ++ back) = payload.length := by
    unfold declared
    rw [← hlen, List.append_assoc]
    exact congrArg getU32 (List.take_left' h4)
  rw [hn, hdrop, List.take_left]
  refine ⟨hmax, ?_, hdec⟩
  rw [List.length_append, List.length_append, h4]
  unfold messageLengthSizeBytes
  omega

theorem framed_of_payload {bytes : List UInt8} {m : α} (hmax : declared bytes ≤ maxControlMessage)
    (h : messageLengthSizeBytes + declared bytes ≤ bytes.length)
    (hdec : decode ((bytes.drop messageLengthSizeBytes).take (declared bytes)) = some m) : Framed decode bytes m := by
  have hlen : ((bytes.drop messageLengthSizeBytes).take (declared bytes)).length = declared bytes := by
    rw [List.length_take, List.length_drop, Nat.min_eq_left (by omega)]
  refine ⟨putU32 (declared bytes), _, bytes.drop (messageLengthSizeBytes + declared bytes), ?_, putU32_length _, ?_, hlen.symm ▸ hmax, hdec⟩
  · have hsplit := bytes_split h
    rw [frame, hlen] at hsplit
    exact hsplit.symm
  · rw [hlen]
    have hm := maxControlMessage_lt
    exact getU32_putU32 (by omega)

/-- What a read that succeeds has found on the stream. -/
theorem read_ok {m : α} {rest : Source} (h : readControlMessage decode stream = .ok m rest) :
    declared stream.bytes ≤ maxControlMessage ∧ messageLengthSizeBytes + declared stream.bytes ≤ stream.bytes.length ∧
      decode ((stream.bytes.drop messageLengthSizeBytes).take (declared stream.bytes)) = some m ∧
      rest.bytes = stream.bytes.drop (messageLengthSizeBytes + declared stream.bytes) := by
  by_cases h4 : stream.bytes.length < messageLengthSizeBytes
  · rw [read_short_header decode stream h4] at h
    cases hc : stream.closed <;> simp [hc] at h
  by_cases hmax : maxControlMessage < declared stream.bytes
  · obtain ⟨_, hread, -⟩ := read_oversized decode stream (Nat.le_of_not_lt h4) hmax
    rw [hread] at h
    cases h
  by_cases hshort : stream.bytes.length < messageLengthSizeBytes + declared stream.bytes
  · rw [read_short_payload decode stream (Nat.le_of_not_lt h4) (Nat.le_of_not_lt hmax) hshort] at h
    cases hc : stream.closed <;> simp [hc] at h
  obtain ⟨rest', hrest, -, hread⟩ := read_payload decode stream (Nat.le_of_not_lt hmax) (Nat.le_of_not_lt hshort)
  rw [hread] at h
  cases hd : decode ((stream.bytes.drop messageLengthSizeBytes).take (declared stream.bytes)) with
  | none => simp [hd] at h
  | some obj =>
    simp only [hd, Read.ok.injEq] at h
    obtain ⟨rfl, rfl⟩ := h
    exact ⟨Nat.le_of_not_lt hmax, Nat.le_of_not_lt hshort, rfl, hrest⟩

/-- A stream that ends too early fails the read. -/
theorem read_early (decode : List UInt8 → Option α) (hc : stream.closed = true) (h : EndsEarly stream.bytes) :
    ∃ e rest, readControlMessage decode stream = .err e rest := by
  by_cases h4 : stream.bytes.length < messageLengthSizeBytes
  · rw [read_short_header decode stream h4, if_pos hc]
    exact ⟨_, _, rfl⟩
  · rcases h with h | ⟨hmax, h⟩
    · exact absurd h h4
    · rw [read_short_payload decode stream (Nat.le_of_not_lt h4) hmax h, if_pos hc]
      exact ⟨_, _, rfl⟩

/-- The reader does not panic, ends on every stream that ends, accepts exactly
its grammar, and takes exactly one frame, or one length, off the stream. -/
theorem readControlMessage_grammar (decode : List UInt8 → Option α) (stream : Source) :
    readControlMessage decode stream ≠ .panic ∧
    (stream.closed = true → readControlMessage decode stream ≠ .pending) ∧
    (∀ m, (∃ rest, readControlMessage decode stream = .ok m rest) ↔ Framed decode stream.bytes m) ∧
    (∀ m rest, readControlMessage decode stream = .ok m rest →
      rest.bytes = stream.bytes.drop (messageLengthSizeBytes + declared stream.bytes)) ∧
    (messageLengthSizeBytes + declared stream.bytes ≤ stream.bytes.length → declared stream.bytes ≤ maxControlMessage →
      decode ((stream.bytes.drop messageLengthSizeBytes).take (declared stream.bytes)) = none →
      ∃ rest, readControlMessage decode stream = .err jsonError rest ∧
        rest.bytes = stream.bytes.drop (messageLengthSizeBytes + declared stream.bytes)) ∧
    (messageLengthSizeBytes ≤ stream.bytes.length → maxControlMessage < declared stream.bytes →
      ∃ rest, readControlMessage decode stream = .err (headerError (declared stream.bytes)) rest ∧
        rest.bytes = stream.bytes.drop messageLengthSizeBytes) ∧
    (stream.closed = true → EndsEarly stream.bytes → ∃ e rest, readControlMessage decode stream = .err e rest) := by
  have hends := readControlMessage_cases decode stream
  refine ⟨?_, ?_, ?_, ?_, ?_, ?_, ?_⟩
  · intro hp
    simp [hp] at hends
  · intro hc hp
    simp [hp, hc] at hends
  · intro m
    constructor
    · rintro ⟨rest, hread⟩
      obtain ⟨hmax, hlen, hdec, -⟩ := read_ok hread
      exact framed_of_payload hmax hlen hdec
    · intro hf
      obtain ⟨hmax, hlen, hdec⟩ := hf.payload
      obtain ⟨rest, -, -, hread⟩ := read_payload decode stream hmax hlen
      rw [hdec] at hread
      exact ⟨rest, hread⟩
  · intro m rest hread
    exact (read_ok hread).2.2.2
  · intro hlen hmax hdec
    obtain ⟨rest, hrest, -, hread⟩ := read_payload decode stream hmax hlen
    rw [hdec] at hread
    exact ⟨rest, hread, hrest⟩
  · intro h4 hmax
    exact read_oversized decode stream h4 hmax
  · intro hc hearly
    exact read_early decode hc hearly

/-- A frame that comes in pieces, and a byte of the next one. -/
theorem readControlMessage_pieces :
    ∃ rest, readControlMessage some ⟨[⟨[0, 0], by decide⟩, ⟨[0, 2, 65], by decide⟩, ⟨[66, 9], by decide⟩], true⟩ =
      .ok [65, 66] rest ∧ rest.bytes = [9] := by
  have hg := readControlMessage_grammar some
    ⟨[⟨[0, 0], by decide⟩, ⟨[0, 2, 65], by decide⟩, ⟨[66, 9], by decide⟩], true⟩
  obtain ⟨rest, hread⟩ := (hg.2.2.1 [65, 66]).2 ⟨[0, 0, 0, 2], [65, 66], [9], rfl, rfl, rfl, by decide, rfl⟩
  exact ⟨rest, hread, hg.2.2.2.1 _ rest hread⟩

/-! ## What the writer sends and the reader refuses -/

section
variable {encode : α → List UInt8} {m : α} {bs back : List UInt8}

/-- A frame that was sent comes back exactly when its payload is within the reader's limit. -/
theorem readControlMessage_sent (hser : decode (encode m) = some m) (hsend : sendControlMessage encode m = some bs)
    (h : stream.bytes = bs ++ back) :
    (∃ rest, readControlMessage decode stream = .ok m rest) ↔ (encode m).length ≤ maxControlMessage := by
  obtain ⟨rfl, hlt⟩ := sendControlMessage_eq hsend
  constructor
  · rintro ⟨rest, hread⟩
    have hmax := (read_ok hread).1
    rw [h, frame, List.append_assoc] at hmax
    change getU32 (putU32 (encode m).length) ≤ _ at hmax
    rwa [getU32_putU32 hlt] at hmax
  · intro hmax
    obtain ⟨rest, -, -, hread⟩ := readControlMessage_frame decode hmax stream h
    rw [hser] at hread
    exact ⟨rest, hread⟩

/-- A reader of messages that gets `v` has read the envelope `m` of it. -/
theorem readMessage_ok {β : Type} {result : α → Except AnyError β} {v : β} (hv : result m = .ok v)
    (hinj : ∀ e, result e = .ok v → e = m) :
    (∃ rest, readMessage decode result stream = .ok v rest) ↔ ∃ rest, readControlMessage decode stream = .ok m rest := by
  unfold readMessage
  constructor
  · rintro ⟨rest, hread⟩
    cases hr : readControlMessage decode stream with
    | ok envelope rest' =>
      simp only [hr] at hread
      cases he : result envelope with
      | ok w =>
        simp only [he, Read.ok.injEq] at hread
        obtain ⟨rfl, rfl⟩ := hread
        exact ⟨_, by rw [hinj _ he]⟩
      | error e => simp [he] at hread
    | _ => simp [hr] at hread
  · rintro ⟨rest, hread⟩
    exact ⟨rest, by simp only [hread, hv]⟩

/-- A frame beyond the limit is refused by its length. -/
theorem readControlMessage_refused (decode : List UInt8 → Option α) {payload : List UInt8}
    (h : maxControlMessage < payload.length) (hlt : payload.length < 2 ^ 32) (hs : stream.bytes = frame payload ++ back) :
    ∃ rest, readControlMessage decode stream = .err (headerError payload.length) rest := by
  have hbytes : stream.bytes = putU32 payload.length ++ (payload ++ back) := by rw [hs, frame, List.append_assoc]
  have hn : declared stream.bytes = payload.length := by
    rw [hbytes]
    exact getU32_putU32 hlt
  obtain ⟨rest, hread, -⟩ := read_oversized decode stream (by
    rw [hbytes, List.length_append, putU32_length]
    exact Nat.le_add_right _ _) (by rwa [hn])
  rw [hn] at hread
  exact ⟨rest, hread⟩

theorem sendControlMessage_of_lt (h : (encode m).length < 2 ^ 32) :
    sendControlMessage encode m = some (frame (encode m)) := if_pos (by omega)

end

theorem ClientEnvelope.of_result (m : ClientMessage) (e : ClientEnvelope) (h : e.result = .ok m) :
    e = .clientMessage m := by
  cases e with
  | clientMessage m' =>
    cases h
    rfl
  | error e => cases h

theorem ServerEnvelope.of_result (m : ServerMessage) (e : ServerEnvelope) (h : e.result = .ok m) :
    e = .serverMessage m := by
  cases e with
  | serverMessage m' =>
    cases h
    rfl
  | error e => cases h

theorem serverReadMessage_ok {decode : List UInt8 → Option ClientEnvelope} (m : ClientMessage) :
    (∃ rest, serverReadMessage decode stream = .ok m rest) ↔
      ∃ rest, readControlMessage decode stream = .ok (.clientMessage m) rest :=
  readMessage_ok rfl (ClientEnvelope.of_result m)

theorem clientReadMessage_ok {decode : List UInt8 → Option ServerEnvelope} (m : ServerMessage) :
    (∃ rest, clientReadMessage decode stream = .ok m rest) ↔
      ∃ rest, readControlMessage decode stream = .ok (.serverMessage m) rest :=
  readMessage_ok rfl (ServerEnvelope.of_result m)

/-- A string of `n` plain letters. -/
def plainCookie (n : Nat) : String := String.ofList (List.replicate n 'a')

theorem utf8_length (s : String) : (utf8 s).length = s.utf8ByteSize := by
  unfold utf8
  rw [Array.length_toList]
  rfl

theorem plainCookie_size (n : Nat) : (plainCookie n).utf8ByteSize = n := by
  induction n with
  | zero => rfl
  | succ n ih =>
    have hsplit : plainCookie (n + 1) = String.ofList ['a'] ++ plainCookie n := by
      unfold plainCookie
      rw [List.replicate_succ, ← List.singleton_append, String.ofList_append]
    rw [hsplit, String.utf8ByteSize_append, ih, show (String.ofList ['a']).utf8ByteSize = 1 by decide, Nat.add_comm]

theorem jsonString_plain (n : Nat) : (jsonString (plainCookie n)).utf8ByteSize = n + 2 := by
  have hplain : (List.replicate n 'a').flatMap jsonChar = List.replicate n 'a' := by
    induction n with
    | zero => rfl
    | succ n ih => rw [List.replicate_succ, List.flatMap_cons, ih]; rfl
  have hquote : ("\"" : String).utf8ByteSize = 1 := by decide
  have hsize := plainCookie_size n
  unfold jsonString plainCookie at *
  rw [String.utf8ByteSize_append, String.utf8ByteSize_append, String.toList_ofList, hplain, hsize, hquote]
  omega

theorem jsonObject_size (k v : String) : (jsonObject [(k, v)]).utf8ByteSize = k.utf8ByteSize + v.utf8ByteSize + 5 := by
  have h1 : ("\x7b" : String).utf8ByteSize = 1 := by decide
  have h2 : ("\x7d" : String).utf8ByteSize = 1 := by decide
  have h3 : ("\"" : String).utf8ByteSize = 1 := by decide
  have h4 : ("\":" : String).utf8ByteSize = 2 := by decide
  unfold jsonObject jsonFields
  simp only [String.utf8ByteSize_append, h1, h2, h3, h4]
  omega

theorem hello_length (n : Nat) : (ClientEnvelope.encode (.clientMessage (.hello (plainCookie n)))).length = n + 41 := by
  unfold ClientEnvelope.encode ClientEnvelope.json ClientMessage.json
  simp only [utf8_length, jsonObject_size, jsonString_plain]
  have h1 : ("ClientMessage" : String).utf8ByteSize = 13 := by decide
  have h2 : ("Hello" : String).utf8ByteSize = 5 := by decide
  have h3 : ("cookie" : String).utf8ByteSize = 6 := by decide
  omega

theorem createStreams_length (n : Nat) :
    (ServerEnvelope.encode (.serverMessage (.setState (.createStreams (plainCookie n))))).length = n + 62 := by
  unfold ServerEnvelope.encode ServerEnvelope.json ServerMessage.json State.json
  simp only [utf8_length, jsonObject_size, jsonString_plain]
  have h1 : ("ServerMessage" : String).utf8ByteSize = 13 := by decide
  have h2 : ("SetState" : String).utf8ByteSize = 8 := by decide
  have h3 : ("CreateStreams" : String).utf8ByteSize = 13 := by decide
  have h4 : ("cookie" : String).utf8ByteSize = 6 := by decide
  omega

theorem decodeAmong_self (encode : α → List UInt8) (m : α) : decodeAmong encode [m] (encode m) = some m := by
  simp [decodeAmong]

/-- A message that was sent comes back exactly when its text is within the
reader's limit; the echo of a cookie that the server has read is read by the
client unless it is the longer text that exceeds the limit. -/
theorem sent_returns_iff (encodeC : ClientEnvelope → List UInt8) (decodeC : List UInt8 → Option ClientEnvelope)
    (encodeS : ServerEnvelope → List UInt8) (decodeS : List UInt8 → Option ServerEnvelope) :
    (∀ m bs back stream, decodeC (encodeC m) = some m → sendControlMessage encodeC m = some bs →
      Source.bytes stream = bs ++ back →
      ((∃ rest, readControlMessage decodeC stream = .ok m rest) ↔ (encodeC m).length ≤ maxControlMessage)) ∧
    (∀ m bs back stream, decodeS (encodeS m) = some m → sendControlMessage encodeS m = some bs →
      Source.bytes stream = bs ++ back →
      ((∃ rest, readControlMessage decodeS stream = .ok m rest) ↔ (encodeS m).length ≤ maxControlMessage)) ∧
    ∀ cookie hello echo back back' stream stream',
      decodeC (encodeC (.clientMessage (.hello cookie))) = some (.clientMessage (.hello cookie)) →
      decodeS (encodeS (.serverMessage (.setState (.createStreams cookie)))) =
        some (.serverMessage (.setState (.createStreams cookie))) →
      clientSendMessage encodeC (.hello cookie) = some hello →
      serverSendMessage encodeS (.setState (.createStreams cookie)) = some echo →
      Source.bytes stream = hello ++ back → Source.bytes stream' = echo ++ back' →
      (((∃ rest, serverReadMessage decodeC stream = .ok (.hello cookie) rest) →
          ∃ rest, clientReadMessage decodeS stream' = .ok (.setState (.createStreams cookie)) rest) ↔
        ((encodeC (.clientMessage (.hello cookie))).length ≤ maxControlMessage →
          (encodeS (.serverMessage (.setState (.createStreams cookie)))).length ≤ maxControlMessage)) := by
  refine ⟨?_, ?_, ?_⟩
  · intro m bs back stream hser hsend h
    exact readControlMessage_sent hser hsend h
  · intro m bs back stream hser hsend h
    exact readControlMessage_sent hser hsend h
  · intro cookie hello echo back back' stream stream' hserC hserS hsend hsend' h h'
    rw [serverReadMessage_ok, clientReadMessage_ok, readControlMessage_sent hserC hsend h,
      readControlMessage_sent hserS hsend' h']

theorem sent_returns_welcome :
    ∃ rest, readControlMessage (decodeAmong ServerEnvelope.encode [.serverMessage .welcome])
      (sourceOf (frame (ServerEnvelope.encode (.serverMessage .welcome))) true) = .ok (.serverMessage .welcome) rest := by
  have hlen : (ServerEnvelope.encode (.serverMessage .welcome)).length ≤ maxControlMessage := by decide +kernel
  exact ((sent_returns_iff ClientEnvelope.encode (fun _ => none) ServerEnvelope.encode _).2.1 _ _ [] _
    (decodeAmong_self _ _) (sendControlMessage_of_le hlen) (by rw [sourceOf_bytes, List.append_nil])).2 hlen

/-- A value whose text is at the limit comes back. -/
theorem readControlMessage_self (encode : α → List UInt8) (m : α) (h : (encode m).length ≤ maxControlMessage) :
    ∃ rest, readControlMessage (decodeAmong encode [m]) (sourceOf (frame (encode m)) true) = .ok m rest := by
  have hbytes : (sourceOf (frame (encode m)) true).bytes = frame (encode m) ++ [] := by
    rw [sourceOf_bytes, List.append_nil]
  exact (readControlMessage_sent (decodeAmong_self encode m) (sendControlMessage_of_le h) hbytes).2 h

/-- At the limit the server reads the cookie, and the client refuses the echo. -/
theorem echo_refused {n : Nat} (hn : n + 41 = maxControlMessage) :
    ∃ hello echo rest rest',
      clientSendMessage ClientEnvelope.encode (.hello (plainCookie n)) = some hello ∧
      serverReadMessage (decodeAmong ClientEnvelope.encode [.clientMessage (.hello (plainCookie n))])
        (sourceOf hello true) = .ok (.hello (plainCookie n)) rest ∧
      serverSendMessage ServerEnvelope.encode (.setState (.createStreams (plainCookie n))) = some echo ∧
      clientReadMessage (decodeAmong ServerEnvelope.encode [.serverMessage (.setState (.createStreams (plainCookie n)))])
        (sourceOf echo true) = .err (headerError (n + 62)) rest' := by
  have hmax : maxControlMessage + 21 < 2 ^ 32 := by decide
  have hhello := (hello_length n).trans hn
  have hecho := createStreams_length n
  generalize hm : ClientEnvelope.clientMessage (.hello (plainCookie n)) = m at hhello
  generalize hm' : ServerEnvelope.serverMessage (.setState (.createStreams (plainCookie n))) = m' at hecho
  have hserver : ∃ rest, serverReadMessage (decodeAmong ClientEnvelope.encode [m])
      (sourceOf (frame (ClientEnvelope.encode m)) true) = .ok (.hello (plainCookie n)) rest := by
    rw [serverReadMessage_ok, hm]
    exact readControlMessage_self ClientEnvelope.encode m hhello.le
  obtain ⟨rest, hread⟩ := hserver
  have hbytes : (sourceOf (frame (ServerEnvelope.encode m')) true).bytes = frame (ServerEnvelope.encode m') ++ [] := by
    rw [sourceOf_bytes, List.append_nil]
  obtain ⟨rest', hread'⟩ :=
    readControlMessage_refused (decodeAmong ServerEnvelope.encode [m']) (by omega) (by omega) hbytes
  rw [hecho] at hread'
  refine ⟨frame (ClientEnvelope.encode m), frame (ServerEnvelope.encode m'), ?_⟩
  unfold clientSendMessage serverSendMessage clientReadMessage readMessage
  rw [hm, hm', hread']
  exact ⟨rest, rest', sendControlMessage_of_le hhello.le, hread, sendControlMessage_of_lt (by omega), rfl⟩

theorem sent_not_returned :
    ∃ hello echo rest rest',
      clientSendMessage ClientEnvelope.encode (.hello (plainCookie 20971479)) = some hello ∧
      serverReadMessage (decodeAmong ClientEnvelope.encode [.clientMessage (.hello (plainCookie 20971479))])
        (sourceOf hello true) = .ok (.hello (plainCookie 20971479)) rest ∧
      serverSendMessage ServerEnvelope.encode (.setState (.createStreams (plainCookie 20971479))) = some echo ∧
      clientReadMessage
        (decodeAmong ServerEnvelope.encode [.serverMessage (.setState (.createStreams (plainCookie 20971479)))])
        (sourceOf echo true) = .err (headerError 20971541) rest' :=
  echo_refused rfl

end Netperf
