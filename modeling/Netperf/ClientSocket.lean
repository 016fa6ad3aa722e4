import Netperf.ClientTest
import Netperf.NetUtils
import Netperf.Json
/-!
# The client's control socket

The client's reads at the level of bytes. `client_read_message` is a future
that takes bytes from the socket as they come: first the four of the length,
then the payload. In the `select!` of the loop it is dropped whenever the
controller's own channel wins, and what it has taken is lost with it.
-/

namespace Netperf

open Frames Runs

/-! ## The read future -/

/-- Where `read_control_message` waits: in `read_u32`, or in the payload loop. -/
inductive Reading where
  | header (got : List UInt8)
  | payload (size : Nat) (buf : List UInt8)
deriving DecidableEq

namespace Reading

/-- The bytes still missing at this wait. -/
def wanted : Reading → Nat
  | header got => messageLengthSizeBytes - got.length
  | payload size buf => size - buf.length

/-- The bytes taken from the socket so far. -/
def taken : Reading → List UInt8
  | header got => got
  | payload size buf => putU32 size ++ buf

def finish (decode : List UInt8 → Option ServerEnvelope) (buf : List UInt8) : Except AnyError ServerMessage :=
  match decode buf with
  | none => .error jsonError
  | some envelope => envelope.result

/-- Takes some bytes: the future goes on, or it is done. -/
def take (decode : List UInt8 → Option ServerEnvelope) (r : Reading) (bytes : List UInt8) :
    Reading ⊕ Except AnyError ServerMessage :=
  match r with
  | header got =>
    let got := got ++ bytes
    if got.length < messageLengthSizeBytes then .inl (header got)
    else
      let messageSize := getU32 got
      if maxControlMessage < messageSize then .inr (.error (headerError messageSize))
      else if messageSize = 0 then .inr (finish decode [])
      else .inl (payload messageSize [])
  | payload size buf =>
    let buf := buf ++ bytes
    if buf.length < size then .inl (payload size buf) else .inr (finish decode buf)

end Reading

/-! ## The client and its socket -/

structure ClientSocket where
  test : ClientTest
  /-- The read future, as long as the client waits for it. -/
  reading : Reading
  /-- The bytes the server wrote and nobody took. -/
  unread : List UInt8
  /-- The messages the server wrote. -/
  written : List ServerMessage
  /-- A read met the end of the stream or an I/O error. -/
  failed : Bool

inductive SocketEvent where
  /-- The server writes a message. -/
  | write (m : ServerMessage)
  /-- The read future is polled, and `k` bytes are there for it. -/
  | poll (k : Nat)
  /-- The read future ends with the error of a closed or broken connection. -/
  | fail (e : AnyError)
  /-- Any step of the client but the end of a read. -/
  | client (e : ClientEvent)

def ClientTest.reads (t : ClientTest) : Bool :=
  match t.pc with
  | .selecting | .readingResults _ => true
  | _ => false

namespace ClientSocket

def init (cookie : String) (params : TestParameters) : ClientSocket :=
  { test := ClientTest.new cookie params, reading := .header [], unread := [], written := [], failed := false }

/-- The read future is done with `r`. -/
def deliver (s : ClientSocket) (r : Except AnyError ServerMessage) : Option ClientSocket :=
  (s.test.step (.read r)).map (fun t => { s with test := t, reading := .header [] })

/-- The read future takes the next `k` bytes. -/
def poll (decode : List UInt8 → Option ServerEnvelope) (s : ClientSocket) (k : Nat) : Option ClientSocket :=
  match s.reading.take decode (s.unread.take k) with
  | .inl r => some { s with reading := r, unread := s.unread.drop k }
  | .inr r => { s with unread := s.unread.drop k }.deliver r

def step (encode : ServerEnvelope → List UInt8) (decode : List UInt8 → Option ServerEnvelope) (s : ClientSocket) :
    SocketEvent → Option ClientSocket
  | .write m =>
    (serverSendMessage encode m).map
      (fun bytes => { s with unread := s.unread ++ bytes, written := s.written ++ [m] })
  | .poll k =>
    if s.test.reads ∧ 0 < k ∧ k ≤ s.reading.wanted ∧ k ≤ s.unread.length then s.poll decode k else none
  | .fail e => if s.test.reads then { s with failed := true }.deliver (.error e) else none
  | .client e =>
    match e with
    | .read _ => none
    -- `select!` drops the read future
    | .recv => (s.test.step .recv).map (fun t => { s with test := t, reading := .header [] })
    | e => (s.test.step e).map (fun t => { s with test := t })

/-- The controller's channel wins the `select!` only against a read future that
has taken nothing. -/
def Undisturbed (s : ClientSocket) : SocketEvent → Prop
  | .client .recv => s.reading = .header []
  | _ => True

/-- The messages handed over are the first the server wrote, in order. An error
may end them: that of a broken connection, or of a frame over the limit. -/
def InStep (encode : ServerEnvelope → List UInt8) (s : ClientSocket) : Prop :=
  ∃ done todo, s.written = done ++ todo ∧
    (s.test.received = done.map .ok ∨
      ∃ e, s.test.received = done.map .ok ++ [.error e] ∧
        (s.failed = true ∨ ∃ m rest, todo = m :: rest ∧ maxControlMessage < (encode (.serverMessage m)).length))

end ClientSocket

/-! ## One poll -/

section
variable {encode : ServerEnvelope → List UInt8} {decode : List UInt8 → Option ServerEnvelope}

/-- The frames of some messages, one after another. -/
def framesOf (encode : ServerEnvelope → List UInt8) (ms : List ServerMessage) : List UInt8 :=
  ms.flatMap (fun m => frame (encode (.serverMessage m)))

def Reading.Valid : Reading → Prop
  | .header got => got.length < messageLengthSizeBytes
  | .payload size buf => buf.length < size ∧ size ≤ maxControlMessage

theorem Reading.finish_encode {m : ServerMessage} (h : decode (encode (.serverMessage m)) = some (.serverMessage m)) :
    Reading.finish decode (encode (.serverMessage m)) = .ok m := by
  simp [finish, h, ServerEnvelope.result]

/-- The first bytes of a frame are its length. -/
theorem header_eq {got front payload back : List UInt8} (hlen : got.length = messageLengthSizeBytes)
    (h : got ++ front = frame payload ++ back) : got = putU32 payload.length ∧ front = payload ++ back := by
  rw [frame, List.append_assoc] at h
  exact List.append_inj h (by rw [hlen, putU32_length]; rfl)

/-- A poll either leaves the future waiting with all it has taken, or completes
it with the message whose frame has just been used up. -/
theorem Reading.take_spec {r : Reading} {todo : List ServerMessage} {unread : List UInt8} {k : Nat} (hr : r.Valid)
    (hb : r.taken ++ unread = framesOf encode todo) (hk : 0 < k) (hw : k ≤ r.wanted) (hu : k ≤ unread.length)
    (hser : ∀ m ∈ todo, decode (encode (.serverMessage m)) = some (.serverMessage m))
    (hlen : ∀ m ∈ todo, (encode (.serverMessage m)).length < 2 ^ 32) :
    (∃ r', r.take decode (unread.take k) = .inl r' ∧ r'.Valid ∧ r'.taken ++ unread.drop k = framesOf encode todo) ∨
    ∃ m rest, todo = m :: rest ∧
      ((r.take decode (unread.take k) = .inr (.ok m) ∧ unread.drop k = framesOf encode rest) ∨
        (maxControlMessage < (encode (.serverMessage m)).length ∧ ∃ e, r.take decode (unread.take k) = .inr (.error e))) := by
  have hsplit : unread.take k ++ unread.drop k = unread := List.take_append_drop k unread
  have htake : (unread.take k).length = k := by rw [List.length_take, Nat.min_eq_left hu]
  cases todo with
  | nil =>
    have hempty := (List.append_eq_nil_iff.1 hb).2
    simp [hempty] at hu
    omega
  | cons m rest =>
    have hm := hser m (by simp)
    have hml := hlen m (by simp)
    have hframes : framesOf encode (m :: rest) = frame (encode (.serverMessage m)) ++ framesOf encode rest := rfl
    cases r with
    | header got =>
      simp only [wanted, messageLengthSizeBytes] at hw
      by_cases hshort : (got ++ unread.take k).length < messageLengthSizeBytes
      · refine .inl ⟨.header (got ++ unread.take k), by simp only [take, if_pos hshort], hshort, ?_⟩
        rw [taken, List.append_assoc, hsplit]
        exact hb
      have hfour : (got ++ unread.take k).length = messageLengthSizeBytes := by
        simp only [Valid, messageLengthSizeBytes, List.length_append, htake] at hr hshort ⊢
        omega
      -- the length is complete
      have hbytes : (got ++ unread.take k) ++ unread.drop k = frame (encode (.serverMessage m)) ++ framesOf encode rest := by
        rw [List.append_assoc, hsplit]
        exact hb
      obtain ⟨hgot, hdrop⟩ := header_eq hfour hbytes
      have hsize : getU32 (got ++ unread.take k) = (encode (.serverMessage m)).length := by rw [hgot, getU32_putU32 hml]
      simp only [take, if_neg hshort, hsize]
      by_cases hmax : maxControlMessage < (encode (.serverMessage m)).length
      · exact .inr ⟨m, rest, rfl, .inr ⟨hmax, _, by rw [if_pos hmax]⟩⟩
      rw [if_neg hmax]
      by_cases hzero : (encode (.serverMessage m)).length = 0
      · have hnil := List.length_eq_zero_iff.1 hzero
        refine .inr ⟨m, rest, rfl, .inl ⟨?_, by rw [hdrop, hnil, List.nil_append]⟩⟩
        rw [if_pos hzero, ← hnil, finish_encode hm]
      · refine .inl ⟨.payload (encode (.serverMessage m)).length [], by rw [if_neg hzero],
          ⟨Nat.pos_of_ne_zero hzero, Nat.le_of_not_lt hmax⟩, ?_⟩
        rw [taken, List.append_nil, hdrop, hframes, frame, List.append_assoc]
    | payload size buf =>
      obtain ⟨hlt, hle⟩ := hr
      simp only [wanted] at hw
      have hmax := maxControlMessage_lt
      -- the frame at hand is the one whose length was read
      have hbytes : putU32 size ++ (buf ++ unread) = frame (encode (.serverMessage m)) ++ framesOf encode rest := by
        rw [← List.append_assoc]
        exact hb
      obtain ⟨hput, hpay⟩ := header_eq rfl hbytes
      have hsize : size = (encode (.serverMessage m)).length := by
        rw [← getU32_putU32 (n := size) (by omega), hput, getU32_putU32 hml]
      by_cases hshort : (buf ++ unread.take k).length < size
      · refine .inl ⟨.payload size (buf ++ unread.take k), by simp only [take, if_pos hshort], ⟨hshort, hle⟩, ?_⟩
        rw [taken, List.append_assoc, List.append_assoc, hsplit]
        exact hbytes
      · have hfull : (buf ++ unread.take k).length = (encode (.serverMessage m)).length := by
          rw [← hsize]
          simp only [List.length_append, htake] at hshort ⊢
          omega
        rw [← hsplit, ← List.append_assoc] at hpay
        obtain ⟨hbuf, hdrop⟩ := List.append_inj hpay hfull
        refine .inr ⟨m, rest, rfl, .inl ⟨?_, hdrop⟩⟩
        simp only [take, if_neg hshort]
        rw [hbuf, finish_encode hm]

/-- A future that completes returns what `client_read_message` returns on the
same bytes. -/
theorem Reading.take_agrees {r : Reading} {bytes back : List UInt8} {res : Except AnyError ServerMessage}
    (hr : r.Valid) (hw : bytes.length ≤ r.wanted) (h : r.take decode bytes = .inr res) (stream : Source)
    (hb : stream.bytes = r.taken ++ bytes ++ back) :
    ∃ rest, clientReadMessage decode stream = match res with
      | .ok m => .ok m rest
      | .error e => .err e rest := by
  cases r with
  | header got =>
    simp only [take] at h
    split at h
    · cases h
    rename_i hlong
    have hfour : (got ++ bytes).length = messageLengthSizeBytes := by
      simp only [Valid, wanted, List.length_append] at hr hw hlong ⊢
      omega
    obtain ⟨s1, f1, b1, -⟩ := fill_append stream hb
    have f1 : stream.fill messageLengthSizeBytes = .filled (got ++ bytes) s1 := hfour ▸ f1
    simp only [clientReadMessage, readMessage, readControlMessage, f1]
    split at h
    · rename_i hmax
      cases h
      exact ⟨s1, by rw [if_pos hmax]⟩
    rename_i hmax
    split at h
    · rename_i hzero
      obtain ⟨s2, f2, -, -⟩ := fill_append s1 (List.nil_append _).symm
      cases h
      refine ⟨s2, ?_⟩
      simp only [hzero, List.length_nil] at f2 ⊢
      simp only [f2, List.length_nil, ne_eq, not_true_eq_false, if_false, finish]
      cases decode [] with
      | none => rfl
      | some envelope => cases hres : envelope.result <;> simp [hres]
    · cases h
  | payload size buf =>
    obtain ⟨hlt, hle⟩ := hr
    have hmax := maxControlMessage_lt
    simp only [wanted] at hw
    simp only [take] at h
    split at h
    · cases h
    rename_i hlong
    have hfull : (buf ++ bytes).length = size := by
      simp only [List.length_append] at hlong ⊢
      omega
    rw [taken, List.append_assoc, List.append_assoc] at hb
    obtain ⟨s1, f1, b1, -⟩ := fill_append stream hb
    rw [putU32_length] at f1
    obtain ⟨s2, f2, -, -⟩ := fill_append s1 (b1.trans (List.append_assoc _ _ _).symm)
    rw [hfull] at f2
    cases h
    refine ⟨s2, ?_⟩
    simp only [clientReadMessage, readMessage, readControlMessage, messageLengthSizeBytes, f1,
      getU32_putU32 (n := size) (by omega), if_neg (Nat.not_lt.2 hle), f2, hfull, ne_eq, not_true_eq_false, if_false,
      finish]
    cases decode (buf ++ bytes) with
    | none => rfl
    | some envelope => cases hres : envelope.result <;> simp [hres]

/-! ## Runs -/

namespace ClientSocket
variable {s u : ClientSocket} {e : SocketEvent} {es : List SocketEvent}

/-- What the server wrote decodes, and every part of it was handed over, or is
in the read future, or is still unread. -/
structure Sync (encode : ServerEnvelope → List UInt8) (decode : List UInt8 → Option ServerEnvelope)
    (s : ClientSocket) : Prop where
  decodes : ∀ m ∈ s.written, decode (encode (.serverMessage m)) = some (.serverMessage m)
  bounded : ∀ m ∈ s.written, (encode (.serverMessage m)).length < 2 ^ 32
  placed : s.test.returned = false → ∃ done todo, s.written = done ++ todo ∧ s.test.received = done.map .ok ∧
    s.reading.Valid ∧ s.reading.taken ++ s.unread = framesOf encode todo
  inStep : InStep encode s

theorem Sync.write (hi : Sync encode decode s) {m : ServerMessage} {bytes : List UInt8}
    (h : serverSendMessage encode m = some bytes)
    (hd : decode (encode (.serverMessage m)) = some (.serverMessage m)) :
    Sync encode decode { s with unread := s.unread ++ bytes, written := s.written ++ [m] } := by
  obtain ⟨rfl, hlen⟩ := sendControlMessage_eq h
  refine ⟨?_, ?_, ?_, ?_⟩
  · intro x hx
    rcases List.mem_append.1 hx with hx | hx
    · exact hi.decodes x hx
    · rw [List.mem_singleton.1 hx]
      exact hd
  · intro x hx
    rcases List.mem_append.1 hx with hx | hx
    · exact hi.bounded x hx
    · rw [List.mem_singleton.1 hx]
      exact hlen
  · intro hr
    obtain ⟨done, todo, hw, hrec, hv, hb⟩ := hi.placed hr
    refine ⟨done, todo ++ [m], by simp [hw], hrec, hv, ?_⟩
    simp [← List.append_assoc, hb, framesOf]
  · obtain ⟨done, todo, hw, hrec⟩ := hi.inStep
    refine ⟨done, todo ++ [m], by simp [hw], hrec.imp_right ?_⟩
    rintro ⟨e, he, hf | ⟨x, rest, rfl, hx⟩⟩
    · exact ⟨e, he, .inl hf⟩
    · exact ⟨e, he, .inr ⟨x, rest ++ [m], rfl, hx⟩⟩

/-- The client goes on without touching the socket. -/
theorem Sync.client (hi : Sync encode decode s) {t : ClientTest} (hr : t.received = s.test.received)
    (hret : t.returned = false → s.test.returned = false) : Sync encode decode { s with test := t } := by
  refine ⟨hi.decodes, hi.bounded, ?_, ?_⟩
  · intro h
    obtain ⟨done, todo, hw, hrec, hv, hb⟩ := hi.placed (hret h)
    exact ⟨done, todo, hw, hr.trans hrec, hv, hb⟩
  · obtain ⟨done, todo, hw, hrec⟩ := hi.inStep
    refine ⟨done, todo, hw, ?_⟩
    rw [hr]
    exact hrec

theorem reads_not_returned {t : ClientTest} (h : t.reads = true) : t.returned = false := by
  unfold ClientTest.reads at h
  unfold ClientTest.returned
  split at h <;> simp_all

theorem Sync.fail (hi : Sync encode decode s) (hr : s.test.reads = true) {e : AnyError}
    (h : { s with failed := true }.deliver (.error e) = some u) : Sync encode decode u := by
  obtain ⟨t, ht, rfl⟩ := Option.map_eq_some_iff.1 h
  obtain ⟨done, todo, hw, hrec, -, -⟩ := hi.placed (reads_not_returned hr)
  refine ⟨hi.decodes, hi.bounded, ?_, ⟨done, todo, hw, .inr ⟨e, ?_, .inl rfl⟩⟩⟩
  · intro hret
    rw [ClientTest.read_error ht] at hret
    cases hret
  · rw [ClientTest.read_received ht, hrec]

theorem Sync.poll (hi : Sync encode decode s) {k : Nat} (hr : s.test.reads = true) (hk : 0 < k)
    (hw : k ≤ s.reading.wanted) (hu : k ≤ s.unread.length) (h : s.poll decode k = some u) :
    Sync encode decode u := by
  obtain ⟨done, todo, hwr, hrec, hv, hb⟩ := hi.placed (reads_not_returned hr)
  have hsub : ∀ m ∈ todo, m ∈ s.written := fun m hm => hwr ▸ List.mem_append_right _ hm
  unfold ClientSocket.poll at h
  rcases Reading.take_spec hv hb hk hw hu (fun m hm => hi.decodes m (hsub m hm)) (fun m hm => hi.bounded m (hsub m hm))
    with ⟨r, htake, hrv, hrb⟩ | ⟨m, rest, rfl, ⟨htake, hdrop⟩ | ⟨hbig, e, htake⟩⟩
  · rw [htake] at h
    obtain rfl := Option.some.inj h
    exact ⟨hi.decodes, hi.bounded, fun _ => ⟨done, todo, hwr, hrec, hrv, hrb⟩, hi.inStep⟩
  · rw [htake] at h
    obtain ⟨t, ht, rfl⟩ := Option.map_eq_some_iff.1 h
    have hgot : t.received = (done ++ [m]).map .ok := by
      rw [ClientTest.read_received ht, hrec]
      simp
    have hsplit : s.written = (done ++ [m]) ++ rest := by simp [hwr]
    refine ⟨hi.decodes, hi.bounded, fun _ => ⟨done ++ [m], rest, hsplit, hgot, by simp [Reading.Valid, messageLengthSizeBytes], ?_⟩,
      ⟨done ++ [m], rest, hsplit, .inl hgot⟩⟩
    simpa [Reading.taken] using hdrop
  · rw [htake] at h
    obtain ⟨t, ht, rfl⟩ := Option.map_eq_some_iff.1 h
    refine ⟨hi.decodes, hi.bounded, ?_, ⟨done, m :: rest, hwr, .inr ⟨e, ?_, .inr ⟨m, rest, rfl, hbig⟩⟩⟩⟩
    · intro hret
      rw [ClientTest.read_error ht] at hret
      cases hret
    · rw [ClientTest.read_received ht, hrec]

theorem sync_step (hi : Sync encode decode s) (h : s.step encode decode e = some u) (hc : Undisturbed s e)
    (hd : ∀ m, e = .write m → decode (encode (.serverMessage m)) = some (.serverMessage m)) : Sync encode decode u := by
  cases e with
  | write m =>
    obtain ⟨bytes, hb, rfl⟩ := Option.map_eq_some_iff.1 h
    exact hi.write hb (hd m rfl)
  | poll k =>
    simp only [step, Option.ite_none_right_eq_some] at h
    obtain ⟨⟨hr, hk, hw, hu⟩, h⟩ := h
    exact hi.poll hr hk hw hu h
  | fail e =>
    simp only [step, Option.ite_none_right_eq_some] at h
    exact hi.fail h.1 h.2
  | client ev =>
    have key : ∀ {t : ClientTest}, (∀ r, ev ≠ .read r) → s.test.step ev = some t →
        Sync encode decode { s with test := t } := by
      intro t hne ht
      have hstep := ClientTest.step_cases ht
      refine hi.client ?_ (ClientTest.returned_of_step hstep)
      rcases ClientTest.received_of_step hstep with hr | ⟨r, hr, -⟩
      · exact hr
      · exact absurd hr (hne r)
    cases ev with
    | read r => cases h
    | recv =>
      obtain ⟨t, ht, rfl⟩ := Option.map_eq_some_iff.1 h
      -- the dropped future had taken nothing
      have hfresh : s.reading = .header [] := hc
      have hk := key (by simp) ht
      rw [hfresh] at hk
      exact hk
    | _ =>
      obtain ⟨t, ht, rfl⟩ := Option.map_eq_some_iff.1 h
      exact key (by simp) ht

theorem sync_run {cookie : String} {params : TestParameters}
    (h : Run (step encode decode) Undisturbed (init cookie params) es s)
    (hser : ∀ m, SocketEvent.write m ∈ es → decode (encode (.serverMessage m)) = some (.serverMessage m)) :
    Sync encode decode s := by
  induction h with
  | nil =>
    refine ⟨by simp [init], by simp [init], fun _ => ⟨[], [], rfl, rfl, by simp [init, Reading.Valid, messageLengthSizeBytes], rfl⟩,
      ⟨[], [], rfl, .inl rfl⟩⟩
  | snoc h hc hs ih =>
    exact sync_step (ih (fun m hm => hser m (List.mem_append_left _ hm))) hs hc
      (fun m hm => hser m (by simp [hm]))

/-- The client's reads stay in step with what the server writes, in every run
in which no read is dropped halfway. -/
theorem client_in_step {cookie : String} {params : TestParameters}
    (h : Run (step encode decode) Undisturbed (init cookie params) es s)
    (hser : ∀ m, SocketEvent.write m ∈ es → decode (encode (.serverMessage m)) = some (.serverMessage m)) :
    InStep encode s :=
  (sync_run h hser).inStep

instance (s : ClientSocket) (e : SocketEvent) : Decidable (Undisturbed s e) := by
  unfold Undisturbed
  split <;> infer_instance

def sampleStates : List State := [.createStreams "c", .running, .exchangeResults]

def sampleDecode : List UInt8 → Option ServerEnvelope :=
  decodeAmong ServerEnvelope.encode (sampleStates.map (fun s => .serverMessage (.setState s)))

/-- The server writes a state whose frame has `n` bytes of payload. -/
def stateRun (s : State) (n : Nat) : List SocketEvent := [.write (.setState s), .poll 4, .poll n]

/-- A client with one stream runs its load to the end, and the notice of its
worker is queued. -/
def loadRun : List SocketEvent :=
  ([.client .lock, .client .lock] : List SocketEvent) ++ stateRun (.createStreams "c") 63 ++
    ([.client .lock, .client .lock, .client (.connect (some 0))] : List SocketEvent) ++ stateRun .running 40 ++
    [.client .lock, .client .lock, .client (.worker 0 .start), .client (.worker 0 .message),
      .client (.worker 0 (.stop ⟨true, 10000, 131072, 1, none⟩)), .write (.setState .exchangeResults)]

/-- The notice is taken before a byte of the last state is, and the state read
after it. -/
theorem client_in_step_quiet : ∃ es s, Run (step ServerEnvelope.encode sampleDecode) Undisturbed
    (init "c" (uploadParams 1)) es s ∧ s.test.received.length = 3 ∧ InStep ServerEnvelope.encode s := by
  obtain ⟨s, hrun, hs⟩ := exists_run_of_exec (step ServerEnvelope.encode sampleDecode) Undisturbed
    (init "c" (uploadParams 1)) (loadRun ++ [.client .recv, .client .join, .client .lock, .poll 4, .poll 48])
    (fun s => s.test.received.length = 3) (by decide +kernel)
  refine ⟨_, s, hrun, by simpa using hs, client_in_step hrun ?_⟩
  intro m hm
  have hstates : m ∈ sampleStates.map .setState := by
    simp [loadRun, stateRun] at hm
    rcases hm with rfl | rfl | rfl <;> simp [sampleStates]
  simp only [sampleStates, List.map_cons, List.map_nil, List.mem_cons, List.not_mem_nil, or_false] at hstates
  rcases hstates with rfl | rfl | rfl <;> decide +kernel

/-- The read future has taken five bytes of the last state when the notice wins
the `select!`. The next read takes payload bytes for a length, and the client
gives up. -/
theorem client_out_of_step : ∃ s, Reach (step ServerEnvelope.encode sampleDecode) (init "c" (uploadParams 1)) s ∧
    ¬ InStep ServerEnvelope.encode s := by
  obtain ⟨s, hr, hs⟩ := exists_of_exec (step ServerEnvelope.encode sampleDecode) (init "c" (uploadParams 1))
    (loadRun ++ [.poll 4, .poll 1, .client .recv, .client .join, .client .lock, .poll 4])
    (fun s => s.failed = false ∧ s.written = sampleStates.map .setState ∧ s.test.received.length = 3 ∧
      s.test.received.getLast?.any (fun r => match r with
        | .ok _ => false
        | .error _ => true)) (by decide +kernel)
  simp only [decide_eq_true_eq] at hs
  obtain ⟨hf, hw, hlen, hlast⟩ := hs
  refine ⟨s, hr, ?_⟩
  rintro ⟨done, todo, hsplit, hrec | ⟨e, hrec, hfail | ⟨m, rest, rfl, hbig⟩⟩⟩
  · -- only messages were handed over
    rw [hrec, List.getLast?_map] at hlast
    cases hg : done.getLast? <;> simp [hg] at hlast
  · simp [hf] at hfail
  · have hdone : done.length = 2 := by simpa [hrec] using hlen
    have hm : s.written[2]? = some m := by
      rw [hsplit, List.getElem?_append_right (by omega), hdone]
      rfl
    rw [hw] at hm
    obtain rfl : ServerMessage.setState .exchangeResults = m := by simpa [sampleStates] using hm
    exact absurd hbig (by decide +kernel)

end ClientSocket

end

end Netperf
