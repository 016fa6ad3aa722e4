import Netperf.P3.Protocol
/-!
# The data plane of the p3 build

A data connection on either end. The bytes come in pieces, one for each
`Complete` read; a write loop is the list of its turns. `fair`, which only lets
other tasks run, is left out. Totals are unbounded here: a `u64` that holds the
last total of a loop holds all of them (`readLoop_fits`, `writeLoop_fits`).
-/

namespace Netperf.P3

open Frames

/-! ## Writing -/

/-- A turn of the loop in `write_data`: the time at its test, the bytes that
`write_all` hands back, and how long it took. -/
structure Turn where
  elapsed : Nat
  leftover : Nat
  stall : Nat
deriving DecidableEq

/-- The turns of a write loop, and the time at its end. -/
structure Outbound where
  turns : List Turn
  finish : Nat
deriving DecidableEq

/-- `len` is the length of `buf`. -/
def writeLoop (block dur total len : Nat) (samples : List Nat) : List Turn → Option (Nat × List Nat)
  | [] => none
  | t :: ts =>
    if t.elapsed < dur then
      if t.leftover ≤ len then
        let wrote := block - t.leftover
        if wrote = 0 then some (total + wrote, samples ++ [t.stall])
        else writeLoop block dur (total + wrote) (if t.leftover = 0 then block else t.leftover) (samples ++ [t.stall]) ts
      else none
    else some (total, samples)

def writeData (block secs : Nat) (measure : Bool) (out : Outbound) : Option StreamStats :=
  (writeLoop block (secs * nsPerSec) 0 block [] out.turns).map (fun r =>
    { sender := true
      durationMillis := out.finish / nsPerMilli
      bytesTransferred := r.1
      syscalls := 0
      latency := if measure then
          some { intervalNs := .fromSamples r.2, throughputBps := .default, clockBaselineNs := 0, warmupDiscarded := 0 }
        else none })

def sendAll (block secs : Nat) (measure : Bool) (out : Outbound) : Option StreamStats := writeData block secs measure out

/-! ## Reading -/

def readLoop (closed : Bool) (total : Nat) : List Chunk → Option Nat
  | [] => if closed then some total else none
  | c :: cs => readLoop closed (total + c.1.length) cs

/-- What `read_data` reports after `ns` nanoseconds. -/
def readStats (ns total : Nat) : StreamStats :=
  { sender := false, durationMillis := ns / nsPerMilli, bytesTransferred := total, syscalls := 0, latency := none }

def readData (closed : Bool) (cs : List Chunk) (ns initTotal : Nat) : Option StreamStats :=
  (readLoop closed initTotal cs).map (readStats ns)

theorem readLoop_closed (total : Nat) (cs : List Chunk) : readLoop true total cs = some (total + (bytesOf cs).length) := by
  induction cs generalizing total with
  | nil => simp [readLoop]
  | cons c cs ih =>
    rw [readLoop, ih, bytesOf_cons, List.length_append, Nat.add_assoc]

theorem readLoop_total {closed : Bool} {total r : Nat} {cs : List Chunk} (h : readLoop closed total cs = some r) :
    r = total + (bytesOf cs).length := by
  induction cs generalizing total with
  | nil =>
    simp only [readLoop, Option.ite_none_right_eq_some, Option.some.injEq] at h
    exact h.2.symm
  | cons c cs ih =>
    rw [bytesOf_cons, List.length_append, ← Nat.add_assoc]
    exact ih h

/-- No total of the loop is past `u64` when the last one is not. -/
theorem readLoop_fits {closed : Bool} {total r : Nat} {front back : List Chunk}
    (h : readLoop closed total (front ++ back) = some r) (hr : r < 2 ^ 64) : total + (bytesOf front).length < 2 ^ 64 := by
  have htotal := readLoop_total h
  rw [bytesOf_append, List.length_append] at htotal
  omega

theorem readData_closed (cs : List Chunk) (ns initTotal : Nat) :
    readData true cs ns initTotal = some (readStats ns (initTotal + (bytesOf cs).length)) := by
  rw [readData, readLoop_closed]
  rfl

theorem readData_sender {closed : Bool} {cs : List Chunk} {ns initTotal : Nat} {s : StreamStats}
    (h : readData closed cs ns initTotal = some s) : s.sender = false := by
  obtain ⟨total, -, rfl⟩ := Option.map_eq_some_iff.1 h
  rfl

theorem writeData_sender {block secs : Nat} {measure : Bool} {out : Outbound} {s : StreamStats}
    (h : writeData block secs measure out = some s) : s.sender = true := by
  obtain ⟨r, -, rfl⟩ := Option.map_eq_some_iff.1 h
  rfl

/-! ## The server's end -/

structure DataSocket where
  inbound : Source
  outbound : Outbound
  /-- How long `read_data` runs. -/
  readNs : Nat

/-- What `server_conn` does with a connection: whether it counts data, whether it
sends any, and what it returns, unless a transfer does not end. -/
structure Served where
  counts : Bool
  sends : Bool
  stats : Option (List StreamStats)

/-- Reads until there are `COOKIE_LEN` bytes, or the stream ends. -/
def readCookie (closed : Bool) (acc : List UInt8) : List Chunk → Option (List UInt8 × List Chunk)
  | [] => if acc.length < cookieLen ∧ !closed then none else some (acc, [])
  | c :: cs => if acc.length < cookieLen then readCookie closed (acc ++ c.1) cs else some (acc, c :: cs)

/-- The transfers after the check. -/
def transfer (recvData sendData : Bool) (r s : Option StreamStats) : Served :=
  match recvData, sendData with
  | true, true => ⟨true, true, s.bind (fun s => r.map (fun r => [s, r]))⟩
  | true, false => ⟨true, false, r.map (fun r => [r])⟩
  | false, true => ⟨false, true, s.map (fun s => [s])⟩
  | false, false => ⟨false, false, some []⟩

def dropped : Served := ⟨false, false, some []⟩

def serverConn (expected : Cookie) (recvData sendData : Bool) (block secs : Nat) (measure : Bool) (sock : DataSocket) :
    Option Served :=
  (readCookie sock.inbound.closed [] sock.inbound.chunks).map (fun (acc, rest) =>
    if acc.length < cookieLen ∨ acc.take cookieLen ≠ expected.1 then dropped
    else
      transfer recvData sendData (readData sock.inbound.closed rest sock.readNs (acc.length - cookieLen))
        (sendAll block secs measure sock.outbound))

/-- The connection presents the cookie. -/
def Presents (expected : Cookie) (bytes : List UInt8) : Prop := expected.1 <+: bytes

instance (expected : Cookie) (bytes : List UInt8) : Decidable (Presents expected bytes) := by
  unfold Presents
  infer_instance

/-- What `server_conn` is for: a connection is served by its bytes alone. -/
def serve (expected : Cookie) (recvData sendData : Bool) (block secs : Nat) (measure : Bool) (bytes : List UInt8)
    (out : Outbound) (ns : Nat) : Served :=
  if Presents expected bytes then
    transfer recvData sendData (some (readStats ns (bytes.length - cookieLen))) (sendAll block secs measure out)
  else dropped

/-- The bytes read for the cookie and the rest are those of the stream, and there
are enough of them unless the stream ended. -/
theorem readCookie_spec {closed : Bool} {acc acc' : List UInt8} {cs rest : List Chunk}
    (h : readCookie closed acc cs = some (acc', rest)) :
    acc' ++ bytesOf rest = acc ++ bytesOf cs ∧ (cookieLen ≤ acc'.length ∨ rest = []) := by
  induction cs generalizing acc with
  | nil =>
    rw [readCookie] at h
    split at h
    · cases h
    · cases h
      exact ⟨rfl, .inr rfl⟩
  | cons c cs ih =>
    rw [readCookie] at h
    split at h
    · obtain ⟨hbytes, hlen⟩ := ih h
      refine ⟨?_, hlen⟩
      rw [hbytes, bytesOf_cons, List.append_assoc]
    · cases h
      exact ⟨rfl, .inl (by omega)⟩

/-- A stream that ends keeps no reader waiting. -/
theorem readCookie_closed (acc : List UInt8) (cs : List Chunk) : ∃ r, readCookie true acc cs = some r := by
  induction cs generalizing acc with
  | nil => exact ⟨_, by simp [readCookie]; rfl⟩
  | cons c cs ih =>
    rw [readCookie]
    split
    · exact ih _
    · exact ⟨_, rfl⟩

/-- The check looks at the first bytes of the stream. -/
theorem check_iff (expected : Cookie) {acc bytes : List UInt8} (h : acc <+: bytes)
    (hlen : cookieLen ≤ acc.length ∨ acc = bytes) :
    ¬ (acc.length < cookieLen ∨ acc.take cookieLen ≠ expected.1) ↔ Presents expected bytes := by
  have htake : cookieLen ≤ acc.length → acc.take cookieLen = bytes.take cookieLen := by
    intro hle
    obtain ⟨back, rfl⟩ := h
    rw [List.take_append_of_le_length hle]
  rw [Presents, List.prefix_iff_eq_take, expected.2]
  constructor
  · intro hnot
    simp only [not_or, Nat.not_lt, not_not] at hnot
    rw [← htake hnot.1]
    exact hnot.2.symm
  · intro heq
    have hle : cookieLen ≤ acc.length := by
      rcases hlen with hle | rfl
      · exact hle
      · have hl := congrArg List.length heq
        rw [expected.2, List.length_take] at hl
        omega
    simp only [not_or, Nat.not_lt, not_not]
    exact ⟨hle, (htake hle).trans heq.symm⟩

/-- So the pieces in which the cookie was read do not matter. -/
theorem readCookie_check (expected : Cookie) {closed : Bool} {acc : List UInt8} {cs rest : List Chunk}
    (h : readCookie closed [] cs = some (acc, rest)) :
    acc ++ bytesOf rest = bytesOf cs ∧
      (¬ (acc.length < cookieLen ∨ acc.take cookieLen ≠ expected.1) ↔ Presents expected (bytesOf cs)) := by
  obtain ⟨hbytes, hlen⟩ := readCookie_spec h
  rw [List.nil_append] at hbytes
  refine ⟨hbytes, check_iff expected ⟨_, hbytes⟩ (hlen.imp_right (fun hr => ?_))⟩
  rw [← hbytes, hr, bytesOf_nil, List.append_nil]

section
variable {expected : Cookie} {recvData sendData measure : Bool} {block secs : Nat} {sock : DataSocket} {v : Served}

theorem serverConn_drops (h : serverConn expected recvData sendData block secs measure sock = some v)
    (hp : ¬ Presents expected sock.inbound.bytes) : v = dropped := by
  obtain ⟨⟨acc, rest⟩, hread, rfl⟩ := Option.map_eq_some_iff.1 h
  obtain ⟨-, hcheck⟩ := readCookie_check expected hread
  exact if_pos (by_contra (fun hno => hp (hcheck.1 hno)))

theorem serverConn_transfers (h : serverConn expected recvData sendData block secs measure sock = some v)
    (hp : Presents expected sock.inbound.bytes) :
    ∃ r s, v = transfer recvData sendData r s ∧ (∀ x, r = some x → x.sender = false) ∧
      (∀ x, s = some x → x.sender = true) := by
  obtain ⟨⟨acc, rest⟩, hread, rfl⟩ := Option.map_eq_some_iff.1 h
  obtain ⟨-, hcheck⟩ := readCookie_check expected hread
  exact ⟨_, _, if_neg (hcheck.2 hp), fun x hx => readData_sender hx, fun x hx => writeData_sender hx⟩

end

/-- On a stream that ends, the pieces do not matter. -/
theorem serverConn_eq (expected : Cookie) (recvData sendData : Bool) (block secs : Nat) (measure : Bool)
    (cs : List Chunk) (out : Outbound) (ns : Nat) :
    serverConn expected recvData sendData block secs measure ⟨⟨cs, true⟩, out, ns⟩ =
      some (serve expected recvData sendData block secs measure (bytesOf cs) out ns) := by
  obtain ⟨⟨acc, rest⟩, hread⟩ := readCookie_closed [] cs
  obtain ⟨hbytes, hcheck⟩ := readCookie_check expected hread
  unfold serverConn serve
  simp only [hread, Option.map_some, Option.some.injEq]
  by_cases hp : Presents expected (bytesOf cs)
  · have hok := hcheck.2 hp
    rw [if_neg hok, if_pos hp, readData_closed]
    simp only [not_or, Nat.not_lt, not_not] at hok
    have htotal : acc.length - cookieLen + (bytesOf rest).length = (bytesOf cs).length - cookieLen := by
      rw [← hbytes, List.length_append]
      omega
    rw [htotal]
  · rw [if_pos (by_contra (fun h => hp (hcheck.1 h))), if_neg hp]

/-- Of what a served connection reports, one entry is the receiver's. -/
theorem transfer_received {recvData sendData : Bool} {r : StreamStats} {s : Option StreamStats} {ss : List StreamStats}
    (hr : r.sender = false) (hs : ∀ x, s = some x → x.sender = true)
    (hcounts : (transfer recvData sendData (some r) s).counts = true)
    (h : (transfer recvData sendData (some r) s).stats = some ss) : ss.filter (fun x => !x.sender) = [r] := by
  cases recvData with
  | false => cases sendData <;> cases hcounts
  | true =>
    cases sendData with
    | true =>
      simp only [transfer, Option.map_some, Option.bind_eq_some_iff, Option.some.injEq] at h
      obtain ⟨x, hx, rfl⟩ := h
      simp [hr, hs x hx]
    | false =>
      simp only [transfer, Option.map_some, Option.some.injEq] at h
      simp [← h, hr]

/-- In every direction of a test, on every stream that ends: the server goes on
exactly when the stream begins with the cookie, otherwise it returns no stats and
sends nothing, it counts what follows the cookie, and two streams of the same
bytes are served alike. -/
theorem serverConn_gate (expected : Cookie) (dir : UInt8) (block secs : Nat) (measure : Bool) (cs : List Chunk)
    (out : Outbound) (ns : Nat) :
    ∃ v, serverConn expected (roles dir true).2 (roles dir true).1 block secs measure ⟨⟨cs, true⟩, out, ns⟩ = some v ∧
      ((v.counts = true ∨ v.sends = true) ↔ expected.1 <+: bytesOf cs) ∧
      (¬ expected.1 <+: bytesOf cs → v.stats = some [] ∧ v.sends = false) ∧
      (v.counts = true → ∀ ss, v.stats = some ss → ∃ x, ss.filter (fun x => !x.sender) = [x] ∧
        x.bytesTransferred + cookieLen = (bytesOf cs).length) ∧
      ∀ ds, bytesOf ds = bytesOf cs →
        serverConn expected (roles dir true).2 (roles dir true).1 block secs measure ⟨⟨ds, true⟩, out, ns⟩ = some v := by
  refine ⟨_, serverConn_eq _ _ _ _ _ _ cs out ns, ?_, ?_, ?_, ?_⟩
  · have hmode : (roles dir true).2 = true ∨ (roles dir true).1 = true := by
      unfold roles
      split
      · exact .inl rfl
      · split
        · exact .inr rfl
        · exact .inl rfl
    unfold serve
    split
    · rename_i hp
      refine iff_of_true ?_ hp
      cases hr : (roles dir true).2 <;> cases hs : (roles dir true).1 <;> simp_all [transfer]
    · rename_i hp
      exact iff_of_false (by simp [dropped]) hp
  · intro hno
    have hdrop : serve expected (roles dir true).2 (roles dir true).1 block secs measure (bytesOf cs) out ns = dropped :=
      if_neg hno
    rw [hdrop]
    exact ⟨rfl, rfl⟩
  · intro hcounts ss hss
    unfold serve at hcounts hss
    split at hcounts
    · rename_i hp
      rw [if_pos hp] at hss
      refine ⟨_, transfer_received rfl (fun x hx => writeData_sender hx) hcounts hss, ?_⟩
      have hle := hp.length_le
      rw [expected.2] at hle
      exact Nat.sub_add_cancel hle
    · cases hcounts
  · intro ds hds
    rw [serverConn_eq, hds]

end Netperf.P3
