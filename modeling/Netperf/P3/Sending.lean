import Mathlib.Algebra.GroupWithZero.Nat
import Netperf.Lib.Sums
import Netperf.P3.DataPlane
/-!
# What a p3 sender counts

`write_data` counts the block less what `write_all` hands back, and offers what
was handed back the next time round. The two agree while every write takes the
block whole.
-/

namespace Netperf.P3

/-- A call of `write_all`: the bytes it was offered, and those it handed back. -/
structure Write where
  offered : Nat
  leftover : Nat
deriving DecidableEq

def Write.accepted (w : Write) : Nat := w.offered - w.leftover

/-- The calls that a write loop makes, with `len` bytes in `buf`. -/
def writes (block dur len : Nat) : List Turn → List Write
  | [] => []
  | t :: ts =>
    if t.elapsed < dur then
      ⟨len, t.leftover⟩ ::
        if block - t.leftover = 0 then [] else writes block dur (if t.leftover = 0 then block else t.leftover) ts
    else []

def acceptedBytes (ws : List Write) : Nat := (ws.map Write.accepted).sum

/-- A sender counts what was accepted, and a write that takes nothing is its last. -/
structure Faithful (ws : List Write) (s : StreamStats) : Prop where
  counts : s.bytesTransferred = acceptedBytes ws
  stops : ∀ w ∈ ws.dropLast, 0 < w.accepted

/-- The time is up at the test after the first write that takes a part of the block. -/
def PartIsLast (block dur : Nat) (turns : List Turn) : Prop :=
  ∀ front t u back, turns = front ++ t :: u :: back → (∀ x ∈ front, x.elapsed < dur ∧ x.leftover = 0) →
    t.elapsed < dur → 0 < t.leftover → t.leftover < block → dur ≤ u.elapsed

variable {block dur len total : Nat} {turns : List Turn} {t u : Turn} {ts : List Turn} {samples : List Nat}

/-! ## The calls -/

theorem writes_late (h : dur ≤ t.elapsed) : writes block dur len (t :: ts) = [] := by
  unfold writes
  rw [if_neg (by omega)]

theorem writes_stop (h : t.elapsed < dur) (hw : block - t.leftover = 0) :
    writes block dur len (t :: ts) = [⟨len, t.leftover⟩] := by
  unfold writes
  rw [if_pos h, if_pos hw]

theorem writes_full (h : t.elapsed < dur) (hb : 0 < block) (h0 : t.leftover = 0) :
    writes block dur len (t :: ts) = ⟨len, t.leftover⟩ :: writes block dur block ts := by
  conv_lhs => unfold writes
  rw [if_pos h, if_neg (by omega), if_pos h0]

theorem writes_part (h : t.elapsed < dur) (h0 : 0 < t.leftover) (hb : t.leftover < block) :
    writes block dur len (t :: ts) = ⟨len, t.leftover⟩ :: writes block dur t.leftover ts := by
  conv_lhs => unfold writes
  rw [if_pos h, if_neg (by omega), if_neg (by omega)]

/-- `wrote` is measured against the block, whatever was offered. -/
theorem writeLoop_total {r : Nat × List Nat} (hlen : len ≤ block)
    (h : writeLoop block dur total len samples turns = some r) :
    r.1 = total + ((writes block dur len turns).map (fun w => block - w.leftover)).sum ∧
      ∀ w ∈ writes block dur len turns, w.leftover ≤ w.offered ∧ w.offered ≤ block := by
  induction turns generalizing total len samples with
  | nil => cases h
  | cons t ts ih =>
    unfold writeLoop at h
    by_cases ht : t.elapsed < dur
    · rw [if_pos ht] at h
      by_cases hle : t.leftover ≤ len
      · rw [if_pos hle] at h
        by_cases hw : block - t.leftover = 0
        · simp only [hw, if_true, Option.some.injEq] at h
          subst h
          rw [writes_stop ht hw]
          simp [hw, hle, hlen]
        · simp only [hw, if_false] at h
          by_cases h0 : t.leftover = 0
          · rw [if_pos h0] at h
            obtain ⟨hr, hb⟩ := ih (Nat.le_refl _) h
            rw [writes_full ht (by omega) h0]
            simp only [List.map_cons, List.sum_cons, List.mem_cons, forall_eq_or_imp]
            exact ⟨by omega, ⟨hle, hlen⟩, hb⟩
          · rw [if_neg h0] at h
            obtain ⟨hr, hb⟩ := ih (by omega) h
            rw [writes_part ht (by omega) (by omega)]
            simp only [List.map_cons, List.sum_cons, List.mem_cons, forall_eq_or_imp]
            exact ⟨by omega, ⟨hle, hlen⟩, hb⟩
      · rw [if_neg hle] at h
        cases h
    · rw [if_neg ht] at h
      cases h
      rw [writes_late (by omega)]
      simp

/-- No total of the loop is past `u64` when the last one is not. -/
theorem writeLoop_fits {r : Nat × List Nat} {front back : List Write} (hlen : len ≤ block)
    (h : writeLoop block dur total len samples turns = some r) (hr : r.1 < 2 ^ 64)
    (hw : writes block dur len turns = front ++ back) :
    total + (front.map (fun w => block - w.leftover)).sum < 2 ^ 64 := by
  obtain ⟨htotal, -⟩ := writeLoop_total hlen h
  rw [hw, List.map_append, List.sum_append] at htotal
  omega

/-- Every call but the last one took something off the block. -/
theorem writes_dropLast : ∀ w ∈ (writes block dur len turns).dropLast, w.leftover < block := by
  induction turns generalizing len with
  | nil => simp [writes]
  | cons t ts ih =>
    by_cases ht : t.elapsed < dur
    · by_cases hw : block - t.leftover = 0
      · simp [writes_stop ht hw]
      · intro w hmem
        unfold writes at hmem
        rw [if_pos ht, if_neg hw] at hmem
        generalize hws : writes block dur _ ts = ws at hmem
        cases ws with
        | nil => simp at hmem
        | cons v ws =>
          rw [List.dropLast_cons_cons, List.mem_cons] at hmem
          rcases hmem with rfl | hmem
          · change t.leftover < block
            omega
          · rw [← hws] at hmem
            exact ih w hmem
    · simp [writes_late (Nat.le_of_not_lt ht)]

/-- The counts agree exactly when every call was offered a whole block. -/
theorem sum_eq_accepted_iff {ws : List Write} (h : ∀ w ∈ ws, w.leftover ≤ w.offered ∧ w.offered ≤ block) :
    (ws.map (fun w => block - w.leftover)).sum = acceptedBytes ws ↔ ∀ w ∈ ws, w.offered = block := by
  unfold acceptedBytes
  rw [eq_comm, Sums.sum_map_eq_iff (f := Write.accepted) (fun w hw => Nat.sub_le_sub_right (h w hw).2 w.leftover)]
  apply forall₂_congr
  intro w hw
  have hb := h w hw
  unfold Write.accepted
  omega

/-! ## When every call is offered a whole block -/

theorem partIsLast_nil : PartIsLast block dur [] := by
  intro front t u back h
  simp at h

theorem partIsLast_late (h : dur ≤ t.elapsed) : PartIsLast block dur (t :: ts) := by
  rintro (_ | ⟨x, front⟩) y u back he hf hy -
  · cases he
    omega
  · cases he
    have := (hf t (by simp)).1
    omega

theorem partIsLast_full (h : t.elapsed < dur) (h0 : t.leftover = 0) :
    PartIsLast block dur (t :: ts) ↔ PartIsLast block dur ts := by
  constructor
  · intro hp front y u back he hf
    refine hp (t :: front) y u back (by rw [he]; rfl) ?_
    simpa [h, h0] using hf
  · rintro hp (_ | ⟨x, front⟩) y u back he hf hy hpos
    · cases he
      omega
    · cases he
      exact hp front y u back rfl (fun x hx => hf x (List.mem_cons_of_mem _ hx)) hy hpos

theorem partIsLast_whole (hb : block ≤ t.leftover) : PartIsLast block dur (t :: ts) := by
  rintro (_ | ⟨x, front⟩) y u back he hf - h0 hlt
  · cases he
    omega
  · cases he
    have := (hf t (by simp)).2
    omega

theorem partIsLast_part (h : t.elapsed < dur) (h0 : 0 < t.leftover) (hb : t.leftover < block) :
    PartIsLast block dur (t :: ts) ↔ ∀ u ∈ ts.head?, dur ≤ u.elapsed := by
  constructor
  · intro hp u hu
    obtain ⟨back, rfl⟩ := List.head?_eq_some_iff.1 hu
    exact hp [] t u back rfl (by simp) h h0 hb
  · rintro hp (_ | ⟨x, front⟩) y u back he hf hy - -
    · cases he
      exact hp u rfl
    · cases he
      have := (hf t (by simp)).2
      omega

theorem writes_eq_nil_iff : writes block dur len ts = [] ↔ ∀ u ∈ ts.head?, dur ≤ u.elapsed := by
  cases ts with
  | nil => simp [writes]
  | cons u ts =>
    simp only [List.head?_cons, Option.mem_some, forall_eq']
    unfold writes
    split <;> simp <;> omega

theorem mem_writes_part (block dur : Nat) (ts : List Turn) {len : Nat} (hlen : len < block) :
    (∀ w ∈ writes block dur len ts, w.offered = block) ↔ writes block dur len ts = [] := by
  constructor
  · intro h
    cases ts with
    | nil => rfl
    | cons t ts =>
      by_contra hne
      unfold writes at h hne
      split at h
      · have := h ⟨len, t.leftover⟩ (by simp)
        simp only at this
        omega
      · simp_all
  · intro h
    rw [h]
    simp

theorem offered_whole_iff : (∀ w ∈ writes block dur block turns, w.offered = block) ↔ PartIsLast block dur turns := by
  induction turns with
  | nil => simp [writes, partIsLast_nil]
  | cons t ts ih =>
    by_cases ht : t.elapsed < dur
    · by_cases hw : block - t.leftover = 0
      · rw [writes_stop ht hw]
        exact iff_of_true (by simp) (partIsLast_whole (by omega))
      · by_cases h0 : t.leftover = 0
        · rw [writes_full ht (by omega) h0, partIsLast_full ht h0, ← ih]
          simp
        · have hpart : t.leftover < block := by omega
          rw [writes_part ht (by omega) (by omega), partIsLast_part ht (by omega) (by omega), ← writes_eq_nil_iff,
            ← mem_writes_part block dur ts hpart]
          simp
    · rw [writes_late (by omega)]
      exact iff_of_true (by simp) (partIsLast_late (by omega))

theorem writeData_faithful_iff {secs : Nat} {measure : Bool} {out : Outbound} {s : StreamStats}
    (h : writeData block secs measure out = some s) :
    Faithful (writes block (secs * nsPerSec) block out.turns) s ↔ PartIsLast block (secs * nsPerSec) out.turns := by
  obtain ⟨r, hr, rfl⟩ := Option.map_eq_some_iff.1 h
  obtain ⟨htotal, hb⟩ := writeLoop_total (Nat.le_refl _) hr
  rw [← offered_whole_iff, ← sum_eq_accepted_iff hb]
  constructor
  · intro hf
    rw [← hf.counts, htotal, Nat.zero_add]
  · intro heq
    constructor
    · rw [← heq, htotal, Nat.zero_add]
    · intro w hw
      have hall := (sum_eq_accepted_iff hb).1 heq w (List.dropLast_subset _ hw)
      have hlt := writes_dropLast w hw
      unfold Write.accepted
      omega

theorem writeData_faithful_whole :
    Faithful (writes 10 (1 * nsPerSec) 10 [⟨0, 0, 0⟩, ⟨5, 4, 0⟩, ⟨nsPerSec, 0, 0⟩]) ⟨true, 1000, 16, 0, none⟩ := by
  have h : writeData 10 1 false ⟨[⟨0, 0, 0⟩, ⟨5, 4, 0⟩, ⟨nsPerSec, 0, 0⟩], nsPerSec⟩ =
      some ⟨true, 1000, 16, 0, none⟩ := by decide
  refine (writeData_faithful_iff h).2 ?_
  simp [partIsLast_full, partIsLast_part, nsPerSec]

/-- The reader goes after six bytes: they are counted twice, and the write that takes nothing is not the last. -/
theorem writeData_overcounts :
    ∃ turns s, turns = [⟨0, 4, 0⟩, ⟨5, 4, 0⟩, ⟨9, 4, 0⟩, ⟨nsPerSec, 0, 0⟩] ∧
      writeData 10 1 false ⟨turns, nsPerSec⟩ = some s ∧
      acceptedBytes (writes 10 (1 * nsPerSec) 10 turns) = 6 ∧ s.bytesTransferred = 18 ∧
      ¬Faithful (writes 10 (1 * nsPerSec) 10 turns) s := by
  refine ⟨_, _, rfl, rfl, by decide, by decide, ?_⟩
  intro hf
  exact absurd hf.counts (by decide)

end Netperf.P3
