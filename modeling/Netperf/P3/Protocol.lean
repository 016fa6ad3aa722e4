import Netperf.Stats
import Netperf.Lib.Frames
import Netperf.Lib.LittleEndian
/-!
# The control protocol of the p3 build

One message in each direction of the control connection: a little-endian length,
then JSON. `usize` has 32 bits on the build target, where additions wrap in a
release build.
-/

namespace Netperf.P3

open Frames

/-! ## Parameters -/

def dirForward : UInt8 := 0
def dirReverse : UInt8 := 1
def dirBidir : UInt8 := 2

def cookieLen : Nat := 8

/-- `[u8; COOKIE_LEN]` -/
abbrev Cookie := {bs : List UInt8 // bs.length = cookieLen}

structure Params where
  dir : UInt8
  secs : UInt64
  block : UInt64
  parallel : UInt32
  cookie : UInt64
  measureLatency : Bool
deriving DecidableEq

def directionOf (dir : UInt8) : Direction :=
  if dir = dirReverse then .serverToClient else if dir = dirBidir then .bidirectional else .clientToServer

/-- Whether this end sends and whether it receives. -/
def roles (dir : UInt8) (server : Bool) : Bool × Bool :=
  if dir = dirBidir then (true, true) else if dir = dirReverse then (server, !server) else (!server, server)

/-- `u64::to_le_bytes` -/
def toLeBytes (n : UInt64) : Cookie := ⟨LittleEndian.put cookieLen n.toNat, LittleEndian.put_length _ _⟩

/-- `u64::from_le_bytes` -/
def fromLeBytes (bs : Cookie) : UInt64 := UInt64.ofNat (LittleEndian.get bs.1)

theorem toLeBytes_fromLeBytes (bs : Cookie) : toLeBytes (fromLeBytes bs) = bs := by
  have hlt : LittleEndian.get bs.1 < 2 ^ 64 := by
    have h := LittleEndian.get_lt bs.1
    rwa [bs.2] at h
  have hput := LittleEndian.put_get bs.1
  rw [bs.2] at hput
  apply Subtype.ext
  simp only [toLeBytes, fromLeBytes, UInt64.toNat_ofNat']
  rw [Nat.mod_eq_of_lt hlt, hput]

theorem roles_mirror (dir : UInt8) : roles dir true = (roles dir false).swap := by
  unfold roles
  split
  · rfl
  · split <;> rfl

/-! ## Messages -/

section
variable {T : Type}

/-- What `send_msg` writes, for the JSON of its message. -/
def framed (json : List UInt8) : List UInt8 := LittleEndian.put 4 (json.length % 2 ^ 32) ++ json

/-- `Complete` reads yield the pieces; a read of another status ends the loop. -/
inductive Received (T : Type) where
  | returned (m : Option T)
  | pending
  | panicked

/-- The test of the bytes so far: what `recv_msg` returns, if it does not read on. -/
def tryDecode (decode : List UInt8 → Option T) (acc : List UInt8) : Option (Received T) :=
  if 4 ≤ acc.length then
    let stop := (4 + LittleEndian.get (acc.take 4)) % usizeSize
    if stop ≤ acc.length then
      -- the slice `acc[4..4 + len]`
      if 4 ≤ stop then some (.returned (decode ((acc.take stop).drop 4))) else some .panicked
    else none
  else none

def recvFrom (decode : List UInt8 → Option T) (closed : Bool) (acc : List UInt8) (cs : List Chunk) : Received T :=
  match tryDecode decode acc with
  | some r => r
  | none =>
    match cs with
    | [] => if closed then .returned none else .pending
    | c :: cs => recvFrom decode closed (acc ++ c.1) cs

def recvMsg (decode : List UInt8 → Option T) (s : Source) : Received T := recvFrom decode s.closed [] s.chunks

variable {decode : List UInt8 → Option T} {json acc : List UInt8}

theorem framed_length : (framed json).length = 4 + json.length := by simp [framed]

/-- The length is in the first four bytes. -/
theorem stop_eq (hlen : json.length < 2 ^ 32 - 4) (h : framed json <+: acc ∨ acc <+: framed json)
    (h4 : 4 ≤ acc.length) : (4 + LittleEndian.get (acc.take 4)) % usizeSize = 4 + json.length := by
  have hput : (LittleEndian.put 4 json.length).length = 4 := LittleEndian.put_length _ _
  have hmod : json.length % 2 ^ 32 = json.length := Nat.mod_eq_of_lt (by omega)
  have htake : acc.take 4 = LittleEndian.put 4 json.length := by
    rcases h with ⟨back, rfl⟩ | ⟨back, hback⟩
    · rw [framed, hmod, List.append_assoc, List.take_left' hput]
    · have hfirst : (acc ++ back).take 4 = acc.take 4 := List.take_append_of_le_length h4
      rw [← hfirst, hback, framed, hmod, List.take_left' hput]
  have hget : LittleEndian.get (LittleEndian.put 4 json.length) = json.length := LittleEndian.get_put (by omega)
  rw [htake, hget]
  exact Nat.mod_eq_of_lt (by rw [usizeSize]; omega)

/-- With the whole frame there the message is decoded, whatever follows. -/
theorem tryDecode_full (hlen : json.length < 2 ^ 32 - 4) (h : framed json <+: acc) :
    tryDecode decode acc = some (.returned (decode json)) := by
  have hle := h.length_le
  rw [framed_length] at hle
  have hstop := stop_eq hlen (.inl h) (by omega)
  have hslice : (acc.take (4 + json.length)).drop 4 = json := by
    obtain ⟨back, rfl⟩ := h
    rw [← framed_length, List.take_left', framed]
    · exact List.drop_left' (LittleEndian.put_length _ _)
    · rfl
  unfold tryDecode
  simp only [hstop, hslice]
  rw [if_pos (by omega), if_pos hle, if_pos (by omega)]

/-- With less than the frame there `recv_msg` reads on. -/
theorem tryDecode_short (hlen : json.length < 2 ^ 32 - 4) (h : acc <+: framed json) (hlt : acc.length < 4 + json.length) :
    tryDecode decode acc = none := by
  unfold tryDecode
  split
  · rename_i h4
    simp only [stop_eq hlen (.inr h) h4]
    rw [if_neg (by omega)]
  · rfl

/-- Whatever the pieces, and whatever comes after the frame, the message is the
one that was sent. -/
theorem recvFrom_framed (hlen : json.length < 2 ^ 32 - 4) (closed : Bool) (cs : List Chunk)
    (h : framed json <+: acc ++ bytesOf cs) : recvFrom decode closed acc cs = .returned (decode json) := by
  induction cs generalizing acc with
  | nil =>
    rw [bytesOf_nil, List.append_nil] at h
    rw [recvFrom, tryDecode_full hlen h]
  | cons c cs ih =>
    rw [recvFrom]
    by_cases hfull : 4 + json.length ≤ acc.length
    · have hfront : framed json <+: acc := by
        apply List.prefix_of_prefix_length_le h (List.prefix_append _ _)
        rwa [framed_length]
      rw [tryDecode_full hlen hfront]
    · have hfront : acc <+: framed json := by
        apply List.prefix_of_prefix_length_le (List.prefix_append _ _) h
        rw [framed_length]
        omega
      rw [tryDecode_short hlen hfront (by omega)]
      apply ih
      rwa [List.append_assoc, ← bytesOf_cons]

theorem recvMsg_framed (hlen : json.length < 2 ^ 32 - 4) {s : Source} (h : framed json <+: s.bytes) :
    recvMsg decode s = .returned (decode json) :=
  recvFrom_framed hlen s.closed s.chunks h

end

end Netperf.P3
