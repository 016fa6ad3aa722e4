import Netperf.NetUtils
import Netperf.Json
/-!
# Whole conversations

What a control stream carries is a sequence of frames. However the bytes are
cut into reads, the read functions recover the sequence, one frame a call.
-/

namespace Netperf

open Frames

/-- The bytes of some messages sent one after another. -/
def sendAll {α : Type} (encode : α → List UInt8) : List α → Option (List UInt8)
  | [] => some []
  | m :: ms => (sendControlMessage encode m).bind (fun bs => (sendAll encode ms).map (bs ++ ·))

/-- `k` successive calls of a read function: the results in order, and the
stream after the last call. -/
def readTimes {β : Type} (read : Source → Read β) : Nat → Source → Option (List (Except AnyError β) × Source)
  | 0, stream => some ([], stream)
  | k + 1, stream =>
    match read stream with
    | .ok m rest => (readTimes read k rest).map (fun p => (.ok m :: p.1, p.2))
    | .err e rest => (readTimes read k rest).map (fun p => (.error e :: p.1, p.2))
    | .pending => none
    | .panic => none

section
variable {α β : Type} {encode : α → List UInt8} {decode : List UInt8 → Option α} (result : α → Except AnyError β)

theorem sendAll_frames {ms : List α} (hlen : ∀ m ∈ ms, (encode m).length ≤ maxControlMessage) :
    sendAll encode ms = some (ms.flatMap (fun m => frame (encode m))) := by
  induction ms with
  | nil => rfl
  | cons m ms ih =>
    rw [sendAll, sendControlMessage_of_le (hlen m (by simp)), ih (fun x hx => hlen x (by simp [hx]))]
    rfl

/-- Successive reads of some frames return what was sent, in order, and never
touch a byte of a later frame. -/
theorem readTimes_frames {ms : List α} (hser : ∀ m ∈ ms, decode (encode m) = some m)
    (hlen : ∀ m ∈ ms, (encode m).length ≤ maxControlMessage) (k : Nat) (hk : k ≤ ms.length)
    (stream : Source) (back : List UInt8) (h : stream.bytes = ms.flatMap (fun m => frame (encode m)) ++ back) :
    ∃ rest, readTimes (readMessage decode result) k stream = some ((ms.take k).map result, rest) ∧
      rest.bytes = (ms.drop k).flatMap (fun m => frame (encode m)) ++ back := by
  induction ms generalizing k stream with
  | nil =>
    have hk0 : k = 0 := by simpa using hk
    subst hk0
    exact ⟨stream, rfl, h⟩
  | cons m ms ih =>
    cases k with
    | zero => exact ⟨stream, rfl, h⟩
    | succ k =>
      rw [List.flatMap_cons, List.append_assoc] at h
      obtain ⟨s1, hb, -, hr⟩ := readMessage_frame result (hser m (by simp)) (hlen m (by simp)) stream h
      obtain ⟨s2, h1, h2⟩ := ih (fun x hx => hser x (by simp [hx])) (fun x hx => hlen x (by simp [hx])) k
        (by simpa using hk) s1 hb
      refine ⟨s2, ?_, h2⟩
      cases hres : result m with
      | ok v => simp only [hres] at hr; simp [readTimes, hr, h1, hres]
      | error e => simp only [hres] at hr; simp [readTimes, hr, h1, hres]

end

/-- A result carries the envelope it was read from: a message as `Ok`, an error
as the error that `to_client_error` extracts. -/
def ClientEnvelope.Carried (e : ClientEnvelope) (r : Except AnyError ClientMessage) : Prop :=
  match e with
  | .clientMessage m => r = .ok m
  | .error err => toClientError r = some err

def ServerEnvelope.Carried (e : ServerEnvelope) (r : Except AnyError ServerMessage) : Prop :=
  match e with
  | .serverMessage m => r = .ok m
  | .error err => toServerError r = some err

theorem ClientEnvelope.carried_result (e : ClientEnvelope) : e.Carried e.result := by
  cases e <;> rfl

theorem ServerEnvelope.carried_result (e : ServerEnvelope) : e.Carried e.result := by
  cases e <;> rfl

/-- What `k` calls of a read function on `stream` must give, when the envelopes
`es` were sent: the first `k` of them in order, the rest still unread. -/
def Recovers {α β : Type} (encode : α → List UInt8) (carried : α → Except AnyError β → Prop)
    (read : Source → Read β) (es : List α) (k : Nat) (stream : Source) : Prop :=
  ∃ results rest, readTimes read k stream = some (results, rest) ∧
    List.Forall₂ carried (es.take k) results ∧ sendAll encode (es.drop k) = some rest.bytes

theorem recovers {α β : Type} {encode : α → List UInt8} {decode : List UInt8 → Option α}
    {result : α → Except AnyError β} {carried : α → Except AnyError β → Prop} (hcar : ∀ e, carried e (result e))
    {es : List α} (hser : ∀ e ∈ es, decode (encode e) = some e)
    (hlen : ∀ e ∈ es, (encode e).length ≤ maxControlMessage) (stream : Source)
    (h : sendAll encode es = some stream.bytes) (k : Nat) (hk : k ≤ es.length) :
    Recovers encode carried (readMessage decode result) es k stream := by
  rw [sendAll_frames hlen, Option.some.injEq] at h
  obtain ⟨rest, h1, h2⟩ := readTimes_frames result hser hlen k hk stream [] (by simp [h])
  refine ⟨_, rest, h1, ?_, ?_⟩
  · rw [List.forall₂_map_right_iff]
    exact List.forall₂_same.2 (fun e _ => hcar e)
  · rw [sendAll_frames (fun e he => hlen e (List.mem_of_mem_drop he)), h2, List.append_nil]

/-- Control framing round-trips over whole conversations, in both directions. -/
theorem conversation_round_trip (encC : ClientEnvelope → List UInt8) (decC : List UInt8 → Option ClientEnvelope)
    (encS : ServerEnvelope → List UInt8) (decS : List UInt8 → Option ServerEnvelope)
    (cs : List ClientEnvelope) (ss : List ServerEnvelope)
    (hserC : ∀ e ∈ cs, decC (encC e) = some e) (hserS : ∀ e ∈ ss, decS (encS e) = some e)
    (hlenC : ∀ e ∈ cs, (encC e).length ≤ maxControlMessage)
    (hlenS : ∀ e ∈ ss, (encS e).length ≤ maxControlMessage) :
    (∃ bs, sendAll encC cs = some bs ∧ ∀ stream : Source, stream.bytes = bs →
      ∀ k ≤ cs.length, Recovers encC ClientEnvelope.Carried (serverReadMessage decC) cs k stream) ∧
    (∃ bs, sendAll encS ss = some bs ∧ ∀ stream : Source, stream.bytes = bs →
      ∀ k ≤ ss.length, Recovers encS ServerEnvelope.Carried (clientReadMessage decS) ss k stream) := by
  refine ⟨⟨_, sendAll_frames hlenC, ?_⟩, ⟨_, sendAll_frames hlenS, ?_⟩⟩
  · intro stream hb k hk
    exact recovers ClientEnvelope.carried_result hserC hlenC stream (by rw [sendAll_frames hlenC, hb]) k hk
  · intro stream hb k hk
    exact recovers ServerEnvelope.carried_result hserS hlenS stream (by rw [sendAll_frames hlenS, hb]) k hk

/-- The envelopes of `test_messages`, and a client's messages with an error
among them. -/
def sampleServer : List ServerEnvelope := [.serverMessage .welcome, .error (.accessDenied "Something went wrong")]

def sampleClient : List ClientEnvelope :=
  [.clientMessage (.hello "c"), .error (.cannotCreateStream "no route"), .clientMessage (.sendResults ⟨∅⟩)]

theorem conversation_round_trip_sample :
    (∃ bs, sendAll ClientEnvelope.encode sampleClient = some bs ∧ ∀ stream : Source, stream.bytes = bs →
      ∀ k ≤ 3, Recovers ClientEnvelope.encode ClientEnvelope.Carried
        (serverReadMessage (decodeAmong ClientEnvelope.encode sampleClient)) sampleClient k stream) ∧
    (∃ bs, sendAll ServerEnvelope.encode sampleServer = some bs ∧ ∀ stream : Source, stream.bytes = bs →
      ∀ k ≤ 2, Recovers ServerEnvelope.encode ServerEnvelope.Carried
        (clientReadMessage (decodeAmong ServerEnvelope.encode sampleServer)) sampleServer k stream) :=
  conversation_round_trip ClientEnvelope.encode (decodeAmong ClientEnvelope.encode sampleClient)
    ServerEnvelope.encode (decodeAmong ServerEnvelope.encode sampleServer) sampleClient sampleServer
    (by decide) (by decide) (by decide) (by decide)

end Netperf
