import Mathlib.Algebra.Group.Nat.Defs
import Mathlib.Data.List.Basic
/-!
# Length-prefixed frames on a byte stream

A frame is the length of its payload as a big-endian `u32`, then the payload.
A `Source` is a stream as its reader meets it: bytes arrive in pieces, and one
read returns at most one piece. `Source.fill` is the loop that reads until `n`
bytes are there, never asking for more than what is missing; `fill_enough` and
`fill_short` say that its result depends on the bytes alone, not on the pieces.
-/

namespace Frames

/-! ## Big-endian lengths -/

/-- The four bytes of a `u32`, most significant first. -/
def putU32 (n : Nat) : List UInt8 :=
  [UInt8.ofNat (n / 2 ^ 24), UInt8.ofNat (n / 2 ^ 16), UInt8.ofNat (n / 2 ^ 8), UInt8.ofNat n]

/-- The number some big-endian bytes stand for. -/
def getU32 (bs : List UInt8) : Nat := bs.foldl (fun acc b => acc * 256 + b.toNat) 0

@[simp] theorem putU32_length (n : Nat) : (putU32 n).length = 4 := rfl

theorem getU32_putU32 {n : Nat} (h : n < 2 ^ 32) : getU32 (putU32 n) = n := by
  simp only [putU32, getU32, List.foldl_cons, List.foldl_nil, UInt8.toNat_ofNat']
  omega

theorem putU32_getU32 {bs : List UInt8} (h : bs.length = 4) : putU32 (getU32 bs) = bs := by
  match bs, h with
  | [a, b, c, d], _ =>
    have := a.toNat_lt
    have := b.toNat_lt
    have := c.toNat_lt
    have := d.toNat_lt
    simp only [putU32, getU32, List.foldl_cons, List.foldl_nil, List.cons.injEq, and_true]
    refine ⟨?_, ?_, ?_, ?_⟩ <;> apply UInt8.toNat.inj <;> simp only [UInt8.toNat_ofNat'] <;> omega

/-- The frame of a payload. -/
def frame (payload : List UInt8) : List UInt8 := putU32 payload.length ++ payload

/-! ## Streams that arrive in pieces -/

/-- What one read can return: at least one byte. -/
abbrev Chunk := {c : List UInt8 // c ≠ []}

/-- The bytes still to be read, in the pieces in which they will arrive, and
whether the peer then closes the stream or stays silent. -/
structure Source where
  chunks : List Chunk
  closed : Bool
deriving DecidableEq

/-- The bytes of some pieces. -/
def bytesOf (cs : List Chunk) : List UInt8 := cs.flatMap (·.1)

/-- All bytes the stream will deliver. -/
def Source.bytes (s : Source) : List UInt8 := bytesOf s.chunks

@[simp] theorem bytesOf_nil : bytesOf [] = [] := rfl

@[simp] theorem bytesOf_cons (c : Chunk) (cs : List Chunk) : bytesOf (c :: cs) = c.1 ++ bytesOf cs := rfl

theorem bytesOf_append (cs ds : List Chunk) : bytesOf (cs ++ ds) = bytesOf cs ++ bytesOf ds := List.flatMap_append

/-- A stream whose bytes are all there at once. -/
def sourceOf (bytes : List UInt8) (closed : Bool) : Source :=
  if h : bytes = [] then ⟨[], closed⟩ else ⟨[⟨bytes, h⟩], closed⟩

@[simp] theorem sourceOf_bytes (bytes : List UInt8) (closed : Bool) : (sourceOf bytes closed).bytes = bytes := by
  unfold sourceOf
  split
  · rename_i h
    rw [h]
    rfl
  · simp [Source.bytes]

/-- What reading a fixed number of bytes comes to: the bytes and what is left
of the stream, the end of the stream, no result while the peer is silent, or a
count of missing bytes that went below zero. -/
inductive Fill where
  | filled (buf : List UInt8) (rest : Source)
  | eof
  | pending
  | underflow

/-- Reads until `remaining` is zero. Each read returns a piece, or its front
part when the piece is longer than what is missing. -/
def fillFrom (closed : Bool) (remaining : Nat) (buf : List UInt8) : List Chunk → Fill
  | [] => if remaining = 0 then .filled buf ⟨[], closed⟩ else if closed then .eof else .pending
  | c :: cs =>
    if remaining = 0 then .filled buf ⟨c :: cs, closed⟩
    else
      let read := c.1.take remaining
      if remaining < read.length then .underflow
      else if h : c.1.drop remaining = [] then fillFrom closed (remaining - read.length) (buf ++ read) cs
      else .filled (buf ++ read) ⟨⟨c.1.drop remaining, h⟩ :: cs, closed⟩

/-- Reads exactly `n` bytes. -/
def Source.fill (s : Source) (n : Nat) : Fill := fillFrom s.closed n [] s.chunks

/-- A stream with enough bytes is read up to exactly the last byte wanted. -/
theorem fillFrom_enough (closed : Bool) (cs : List Chunk) :
    ∀ (n : Nat) (buf : List UInt8), n ≤ (bytesOf cs).length →
      ∃ rest, fillFrom closed n buf cs = .filled (buf ++ (bytesOf cs).take n) rest ∧
        rest.bytes = (bytesOf cs).drop n ∧ rest.closed = closed := by
  induction cs with
  | nil =>
    intro n buf h
    have hn : n = 0 := by simpa using h
    subst hn
    exact ⟨⟨[], closed⟩, by simp [fillFrom], by simp [Source.bytes], rfl⟩
  | cons c cs ih =>
    intro n buf h
    by_cases hn : n = 0
    · subst hn
      exact ⟨⟨c :: cs, closed⟩, by simp [fillFrom], by simp [Source.bytes], rfl⟩
    have hread : ¬ n < (c.1.take n).length := by rw [List.length_take]; omega
    simp only [fillFrom, if_neg hn, if_neg hread]
    by_cases hd : c.1.drop n = []
    · -- the whole piece is wanted
      have hlen : c.1.length ≤ n := List.drop_eq_nil_iff.1 hd
      have ht : c.1.take n = c.1 := List.take_of_length_le hlen
      obtain ⟨rest, h1, h2, h3⟩ := ih (n - c.1.length) (buf ++ c.1) (by simp at h; omega)
      refine ⟨rest, ?_, ?_, h3⟩
      · rw [dif_pos hd, ht, h1, bytesOf_cons, List.take_append, ht, List.append_assoc]
      · rw [h2, bytesOf_cons, List.drop_append, hd, List.nil_append]
    · have hlt : n < c.1.length := by
        by_contra hge
        exact hd (List.drop_eq_nil_of_le (by omega))
      refine ⟨⟨⟨c.1.drop n, hd⟩ :: cs, closed⟩, ?_, ?_, rfl⟩
      · rw [dif_neg hd, bytesOf_cons, List.take_append_of_le_length (by omega)]
      · rw [bytesOf_cons, List.drop_append_of_le_length (by omega)]
        rfl

/-- A stream with too few bytes gives no buffer. -/
theorem fillFrom_short (closed : Bool) (cs : List Chunk) :
    ∀ (n : Nat) (buf : List UInt8), (bytesOf cs).length < n →
      fillFrom closed n buf cs = if closed then .eof else .pending := by
  induction cs with
  | nil =>
    intro n buf h
    have hn : n ≠ 0 := by simp at h; omega
    simp [fillFrom, hn]
  | cons c cs ih =>
    intro n buf h
    simp only [bytesOf_cons, List.length_append] at h
    have hn : n ≠ 0 := by omega
    have hd : c.1.drop n = [] := List.drop_eq_nil_of_le (by omega)
    have ht : c.1.take n = c.1 := List.take_of_length_le (by omega)
    have hread : ¬ n < c.1.length := by omega
    simp only [fillFrom, if_neg hn, ht, if_neg hread, dif_pos hd]
    exact ih _ _ (by omega)

theorem fill_enough (s : Source) (n : Nat) (h : n ≤ s.bytes.length) :
    ∃ rest, s.fill n = .filled (s.bytes.take n) rest ∧ rest.bytes = s.bytes.drop n ∧ rest.closed = s.closed := by
  simpa [Source.fill, Source.bytes] using fillFrom_enough s.closed s.chunks n [] h

theorem fill_short (s : Source) {n : Nat} (h : s.bytes.length < n) :
    s.fill n = if s.closed then .eof else .pending := fillFrom_short s.closed s.chunks n [] h

/-- Reading as many bytes as a known front part has returns that part. -/
theorem fill_append (s : Source) {front back : List UInt8} (h : s.bytes = front ++ back) :
    ∃ rest, s.fill front.length = .filled front rest ∧ rest.bytes = back ∧ rest.closed = s.closed := by
  obtain ⟨rest, h1, h2, h3⟩ := fill_enough s front.length (by simp [h])
  exact ⟨rest, by rw [h1, h]; simp, by rw [h2, h]; simp, h3⟩

end Frames
