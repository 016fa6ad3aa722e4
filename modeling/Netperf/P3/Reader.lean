import Netperf.P3.Protocol
/-!
# The control reader of the p3 build on any input

`recv_msg` with the vector that collects its bytes. A length at the top of the
range makes the end of the slice wrap to a place before its start.
-/

namespace Netperf.P3

open Frames

variable {T : Type} {decode : List UInt8 → Option T} {acc bytes : List UInt8} {cs : List Chunk} {cap n : Nat}

/-- The capacity of a `Vec<u8>` after `extend_from_slice` with `n` bytes. -/
def extended (cap len n : Nat) : Nat := if len + n ≤ cap then cap else max (max (2 * cap) (len + n)) 8

/-- `recv_msg`, whose vector cannot grow beyond `isize::MAX` bytes. -/
def recvGrowing (decode : List UInt8 → Option T) (closed : Bool) (cap : Nat) (acc : List UInt8) (cs : List Chunk) :
    Received T :=
  match tryDecode decode acc with
  | some r => r
  | none =>
    match cs with
    | [] => if closed then .returned none else .pending
    | c :: cs =>
      if extended cap acc.length c.1.length ≤ isizeMax then
        recvGrowing decode closed (extended cap acc.length c.1.length) (acc ++ c.1) cs
      else .panicked

/-! ## The grammar -/

/-- The length that the first bytes announce. -/
def announced (bytes : List UInt8) : Nat := LittleEndian.get (bytes.take 4)

/-- The bytes begin with a frame whose payload decodes to `m`. -/
def Framed (decode : List UInt8 → Option T) (bytes : List UInt8) (m : T) : Prop :=
  ∃ header payload back, bytes = header ++ payload ++ back ∧ header.length = 4 ∧
    LittleEndian.get header = payload.length ∧ decode payload = some m

/-- A whole frame is there. -/
def Complete (bytes : List UInt8) : Prop := 4 ≤ bytes.length ∧ 4 + announced bytes ≤ bytes.length

instance (bytes : List UInt8) : Decidable (Complete bytes) := by
  unfold Complete
  infer_instance

def parse (decode : List UInt8 → Option T) (bytes : List UInt8) : Option T :=
  if Complete bytes then decode ((bytes.drop 4).take (announced bytes)) else none

/-- The length, if there is one, leaves room for the four bytes before it. -/
def Sane (bytes : List UInt8) : Prop := 4 ≤ bytes.length → announced bytes < 2 ^ 32 - 4

/-- The vector never needs more than `isize::MAX` bytes before the frame is there. -/
def Fits (cap : Nat) (acc : List UInt8) : List Chunk → Prop
  | [] => True
  | c :: cs => Complete acc ∨
      (extended cap acc.length c.1.length ≤ isizeMax ∧ Fits (extended cap acc.length c.1.length) (acc ++ c.1) cs)

theorem framed_iff {m : T} : Framed decode bytes m ↔ parse decode bytes = some m := by
  constructor
  · rintro ⟨header, payload, back, rfl, h4, hlen, hdec⟩
    have hdrop : (header ++ payload ++ back).drop 4 = payload ++ back := by
      rw [List.append_assoc]
      exact List.drop_left' h4
    have hn : announced (header ++ payload ++ back) = payload.length := by
      unfold announced
      rw [← hlen, List.append_assoc, List.take_left' h4]
    have hc : Complete (header ++ payload ++ back) := by
      unfold Complete
      rw [hn, List.length_append, List.length_append, h4]
      omega
    unfold parse
    rw [if_pos hc, hn, hdrop, List.take_left, hdec]
  · intro h
    unfold parse at h
    split at h
    · rename_i hc
      refine ⟨bytes.take 4, _, (bytes.drop 4).drop (announced bytes), ?_, ?_, ?_, h⟩
      · rw [List.append_assoc, List.take_append_drop, List.take_append_drop]
      · rw [List.length_take, Nat.min_eq_left hc.1]
      · rw [List.length_take, List.length_drop, Nat.min_eq_left (by have := hc.2; omega)]
        rfl
    · cases h

/-! ## What the test sees -/

theorem announced_append (h : 4 ≤ acc.length) (more : List UInt8) : announced (acc ++ more) = announced acc := by
  unfold announced
  rw [List.take_append_of_le_length h]

theorem announced_lt (h : 4 ≤ acc.length) : announced acc < 2 ^ 32 := by
  have hlt := LittleEndian.get_lt (acc.take 4)
  rw [List.length_take, Nat.min_eq_left h] at hlt
  exact hlt

theorem parse_append (h : Complete acc) (more : List UInt8) : parse decode (acc ++ more) = parse decode acc := by
  have hn := announced_append h.1 more
  have hc : Complete (acc ++ more) := by
    unfold Complete
    rw [hn, List.length_append]
    exact ⟨Nat.le_add_right_of_le h.1, Nat.le_add_right_of_le h.2⟩
  have hlen : announced acc ≤ (acc.drop 4).length := by
    rw [List.length_drop]
    have := h.2
    omega
  unfold parse
  rw [if_pos hc, if_pos h, hn, List.drop_append_of_le_length h.1, List.take_append_of_le_length hlen]

/-- Below the top of the range the test is that of the grammar. -/
theorem tryDecode_sane (h : Sane acc) :
    tryDecode decode acc = if Complete acc then some (.returned (parse decode acc)) else none := by
  by_cases h4 : 4 ≤ acc.length
  · have hn := h h4
    have hstop : (4 + announced acc) % usizeSize = 4 + announced acc :=
      Nat.mod_eq_of_lt (by unfold usizeSize; omega)
    unfold announced at hstop
    unfold tryDecode
    rw [if_pos h4]
    simp only [hstop]
    by_cases hc : 4 + announced acc ≤ acc.length
    · have hcomplete : Complete acc := ⟨h4, hc⟩
      have hslice : (acc.take (4 + announced acc)).drop 4 = (acc.drop 4).take (announced acc) := by
        rw [List.drop_take, Nat.add_sub_cancel_left]
      unfold parse
      rw [if_pos hcomplete, if_pos hcomplete, ← hslice]
      unfold announced at hc ⊢
      rw [if_pos hc, if_pos (by omega)]
    · rw [if_neg (fun hcomplete : Complete acc => hc hcomplete.2)]
      unfold announced at hc
      rw [if_neg hc]
  · unfold tryDecode
    rw [if_neg h4, if_neg (fun hcomplete : Complete acc => h4 hcomplete.1)]

/-- At the top of the range the slice ends before it starts. -/
theorem tryDecode_insane (h : ¬Sane acc) : tryDecode decode acc = some .panicked := by
  unfold Sane at h
  rw [Classical.not_imp] at h
  obtain ⟨h4, hn⟩ := h
  have hlt := announced_lt h4
  have hstop : (4 + announced acc) % usizeSize < 4 := by
    unfold usizeSize
    omega
  unfold announced at hstop
  unfold tryDecode
  rw [if_pos h4]
  simp only
  rw [if_pos (by omega), if_neg (by omega)]

theorem Sane.of_append {more : List UInt8} (h : Sane (acc ++ more)) : Sane acc := by
  intro h4
  rw [← announced_append h4 more]
  apply h
  rw [List.length_append]
  exact Nat.le_add_right_of_le h4

/-! ## The loop -/

/-- What is not there yet is read on for. -/
theorem tryDecode_complete (decode : List UInt8 → Option T) (h : Complete acc) : ∃ r, tryDecode decode acc = some r := by
  by_cases hs : Sane acc
  · exact ⟨_, by rw [tryDecode_sane hs, if_pos h]⟩
  · exact ⟨_, tryDecode_insane hs⟩

/-- While the vector can grow, this is `recv_msg`. -/
theorem recvGrowing_eq (closed : Bool) (h : Fits cap acc cs) :
    recvGrowing decode closed cap acc cs = recvFrom decode closed acc cs := by
  induction cs generalizing cap acc with
  | nil =>
    unfold recvGrowing recvFrom
    rfl
  | cons c cs ih =>
    unfold recvGrowing recvFrom
    cases hd : tryDecode decode acc with
    | some r => rfl
    | none =>
      rcases h with hc | ⟨hcap, h⟩
      · obtain ⟨r, hr⟩ := tryDecode_complete decode hc
        rw [hr] at hd
        cases hd
      · simp only
        rw [if_pos hcap, ih h]

theorem recvMsg_eq (s : Source) (h : Fits 0 [] s.chunks) :
    recvGrowing decode s.closed 0 [] s.chunks = recvMsg decode s := recvGrowing_eq s.closed h

theorem recvGrowing_returns (hs : Sane (acc ++ bytesOf cs)) (hf : Fits cap acc cs) :
    recvGrowing decode true cap acc cs = .returned (parse decode (acc ++ bytesOf cs)) := by
  induction cs generalizing cap acc with
  | nil =>
    unfold recvGrowing
    rw [tryDecode_sane hs.of_append, bytesOf_nil, List.append_nil]
    by_cases hc : Complete acc
    · rw [if_pos hc]
    · rw [if_neg hc, parse, if_neg hc]
      rfl
  | cons c cs ih =>
    unfold recvGrowing
    rw [tryDecode_sane hs.of_append]
    by_cases hc : Complete acc
    · rw [if_pos hc, parse_append hc]
    · obtain ⟨hcap, hf⟩ := hf.resolve_left hc
      rw [if_neg hc]
      simp only
      rw [if_pos hcap, bytesOf_cons, ← List.append_assoc]
      apply ih
      · rwa [bytesOf_cons, ← List.append_assoc] at hs
      · exact hf

theorem recvGrowing_overflows (hs : Sane (acc ++ bytesOf cs)) (hf : ¬Fits cap acc cs) :
    recvGrowing decode true cap acc cs = .panicked := by
  induction cs generalizing cap acc with
  | nil => exact absurd trivial hf
  | cons c cs ih =>
    unfold Fits at hf
    rw [not_or, not_and] at hf
    unfold recvGrowing
    rw [tryDecode_sane hs.of_append, if_neg hf.1]
    simp only
    by_cases hcap : extended cap acc.length c.1.length ≤ isizeMax
    · rw [if_pos hcap]
      apply ih
      · rwa [bytesOf_cons, ← List.append_assoc] at hs
      · exact hf.2 hcap
    · rw [if_neg hcap]

theorem recvGrowing_insane (hs : ¬Sane (acc ++ bytesOf cs)) : recvGrowing decode true cap acc cs = .panicked := by
  induction cs generalizing cap acc with
  | nil =>
    rw [bytesOf_nil, List.append_nil] at hs
    unfold recvGrowing
    rw [tryDecode_insane hs]
  | cons c cs ih =>
    unfold recvGrowing
    by_cases ha : Sane acc
    · have hc : ¬Complete acc := by
        intro hc
        apply hs
        intro _
        rw [announced_append hc.1]
        exact ha hc.1
      rw [tryDecode_sane ha, if_neg hc]
      simp only
      split
      · apply ih
        rwa [bytesOf_cons, ← List.append_assoc] at hs
      · rfl
    · rw [tryDecode_insane ha]

/-- Less than a gibibyte always fits. -/
theorem fits_of_length_lt (hcap : cap ≤ max 8 (2 * acc.length)) (h : (acc ++ bytesOf cs).length < 2 ^ 30) :
    Fits cap acc cs := by
  induction cs generalizing cap acc with
  | nil => trivial
  | cons c cs ih =>
    rw [bytesOf_cons, ← List.append_assoc] at h
    have hlen : acc.length + c.1.length ≤ (acc ++ c.1 ++ bytesOf cs).length := by
      rw [List.length_append, List.length_append]
      exact Nat.le_add_right _ _
    have hext : extended cap acc.length c.1.length ≤ max 8 (2 * (acc.length + c.1.length)) := by
      unfold extended
      split <;> omega
    refine .inr ⟨?_, ih ?_ h⟩
    · unfold isizeMax
      omega
    · rwa [List.length_append]

/-! ## On any stream that ends -/

/-- The reader is total: it does not panic, and returns what the grammar says. -/
structure Total (decode : List UInt8 → Option T) (cs : List Chunk) : Prop where
  alive : recvGrowing decode true 0 [] cs ≠ .panicked
  accepts : ∀ m, recvGrowing decode true 0 [] cs = .returned (some m) ↔ Framed decode (bytesOf cs) m
  refuses : (¬∃ m, Framed decode (bytesOf cs) m) → recvGrowing decode true 0 [] cs = .returned none

theorem recvMsg_total_iff (decode : List UInt8 → Option T) (cs : List Chunk) :
    Total decode cs ↔ Sane (bytesOf cs) ∧ Fits 0 [] cs := by
  constructor
  · intro h
    have hs : Sane (bytesOf cs) := by
      by_contra hs
      exact h.alive (recvGrowing_insane hs)
    refine ⟨hs, ?_⟩
    by_contra hf
    exact h.alive (recvGrowing_overflows hs hf)
  · rintro ⟨hs, hf⟩
    have hr : recvGrowing decode true 0 [] cs = .returned (parse decode (bytesOf cs)) := recvGrowing_returns hs hf
    constructor
    · rw [hr]
      simp
    · intro m
      rw [hr, framed_iff]
      simp
    · intro hno
      rw [hr]
      cases hp : parse decode (bytesOf cs) with
      | none => rfl
      | some m => exact absurd ⟨m, framed_iff.2 hp⟩ hno

/-- Four bytes that announce 2^32 - 4 more. -/
theorem recvMsg_panics :
    ∃ cs, bytesOf cs = [252, 255, 255, 255] ∧ recvGrowing some true 0 [] cs = .panicked ∧ ¬Total some cs := by
  have hp : recvGrowing some true 0 [] [⟨[252, 255, 255, 255], by decide⟩] = .panicked := by
    apply recvGrowing_insane
    unfold Sane
    decide
  exact ⟨_, rfl, hp, fun h => h.alive hp⟩

end Netperf.P3
