import Mathlib.Data.List.Basic
import Mathlib.Data.List.Forall2
import Mathlib.Data.List.Pairwise
/-!
# Lists as tables

Histories, queues and tables whose entries keep their places: what stands at a
place after a change, and which list an entry of a flattened table comes from.
-/

namespace Lists

variable {α : Type} {l : List α} {a b : α} {i j : Nat}

theorem getElem?_concat_iff : (l ++ [a])[i]? = some b ↔ l[i]? = some b ∨ (i = l.length ∧ a = b) := by
  rcases Nat.lt_trichotomy i l.length with h | h | h
  · rw [List.getElem?_append_left h]
    simp [Nat.ne_of_lt h]
  · subst h
    simp
  · rw [List.getElem?_append_right (by omega), List.getElem?_eq_none (by simp; omega)]
    simp [List.getElem?_eq_none (Nat.le_of_lt h), Nat.ne_of_gt h]

theorem getElem?_set_iff (h : i < l.length) :
    (l.set i a)[j]? = some b ↔ (j = i ∧ b = a) ∨ (j ≠ i ∧ l[j]? = some b) := by
  by_cases he : j = i
  · subst he
    simp [List.getElem?_set_self h, eq_comm]
  · simp [List.getElem?_set_ne (Ne.symm he), he]

/-- What stands at a place of a table after an entry of it was replaced. -/
theorem exists_set_place {a' : α} (ha : l[i]? = some a) (hb : l[j]? = some b) :
    ∃ c, (l.set i a')[j]? = some c ∧ ((j = i ∧ b = a ∧ c = a') ∨ (j ≠ i ∧ c = b)) := by
  have hi : i < l.length := (List.getElem?_eq_some_iff.1 ha).1
  by_cases he : j = i
  · subst he
    rw [ha, Option.some.injEq] at hb
    exact ⟨a', List.getElem?_set_self hi, .inl ⟨rfl, hb.symm, rfl⟩⟩
  · exact ⟨b, (List.getElem?_set_ne (Ne.symm he)).trans hb, .inr ⟨he, rfl⟩⟩

theorem getElem?_modify_iff {f : α → α} :
    (l.modify i f)[j]? = some b ↔ (j = i ∧ ∃ a, l[j]? = some a ∧ b = f a) ∨ (j ≠ i ∧ l[j]? = some b) := by
  by_cases he : j = i
  · subst he
    rw [List.getElem?_modify_eq]
    cases l[j]? <;> simp [eq_comm]
  · simp [List.getElem?_modify_ne _ _ (Ne.symm he), he]

theorem modify_last (l : List α) (f : α → α) (a : α) : (l ++ [a]).modify l.length f = l ++ [f a] := by
  induction l with
  | nil => rfl
  | cons b l ih => exact congrArg (b :: ·) ih

theorem lt_of_getElem? (h : l[i]? = some a) : i < l.length := (List.getElem?_eq_some_iff.1 h).1

/-- A view of a table that stayed the same tells what stood at a place. -/
theorem getElem?_of_map_eq {β : Type} {f : α → β} {l' : List α} (h : l'.map f = l.map f) (ha : l'[i]? = some a) :
    ∃ b, l[i]? = some b ∧ f b = f a := by
  have hi : (l'.map f)[i]? = some (f a) := by simp [ha]
  rw [h, List.getElem?_map, Option.map_eq_some_iff] at hi
  exact hi

theorem countP_lt_range (k n : Nat) : (List.range n).countP (fun i => decide (i < k)) = min k n := by
  induction n with
  | zero => simp
  | succ n ih =>
    rw [List.range_succ, List.countP_append, ih]
    by_cases h : n < k <;> simp [h] <;> omega

theorem countP_not_lt_range (k n : Nat) : (List.range n).countP (fun i => !decide (i < k)) = n - k := by
  have h := List.length_eq_countP_add_countP (fun i => decide (i < k)) (l := List.range n)
  rw [countP_lt_range, List.length_range] at h
  simp only [decide_eq_true_eq, decide_not] at h
  omega

/-! ## What was read of what was written -/

variable {l' xs ys : List α}

/-- A reader that takes the next entry stays behind the writer. -/
theorem prefix_concat (h : l <+: l') (ha : l'[l.length]? = some a) : l ++ [a] <+: l' := by
  obtain ⟨rest, rfl⟩ := h
  rw [List.getElem?_append_right (Nat.le_refl _), Nat.sub_self] at ha
  cases rest with
  | nil => cases ha
  | cons b rest =>
    obtain rfl : b = a := by simpa using ha
    exact ⟨rest, by simp⟩

theorem getElem?_of_prefix (h : l <+: l') (ha : l[i]? = some a) : l'[i]? = some a := by
  obtain ⟨rest, rfl⟩ := h
  rw [List.getElem?_append_left (lt_of_getElem? ha), ha]

/-- An entry that comes once tells where the reader is. -/
theorem prefix_split (h : l ++ a :: xs <+: l' ++ a :: ys) (hl : a ∉ l) (hl' : a ∉ l') : l = l' ∧ xs <+: ys := by
  induction l generalizing l' with
  | nil =>
    cases l' with
    | nil => exact ⟨rfl, (List.cons_prefix_cons.1 h).2⟩
    | cons b l' =>
      obtain ⟨rfl, -⟩ := List.cons_prefix_cons.1 h
      simp at hl'
  | cons c l ih =>
    cases l' with
    | nil =>
      obtain ⟨rfl, -⟩ := List.cons_prefix_cons.1 h
      simp at hl
    | cons b l' =>
      obtain ⟨rfl, htail⟩ := List.cons_prefix_cons.1 h
      obtain ⟨rfl, hxs⟩ := ih htail (fun hm => hl (List.mem_cons_of_mem _ hm)) (fun hm => hl' (List.mem_cons_of_mem _ hm))
      exact ⟨rfl, hxs⟩

/-! ## Flattened tables -/

/-- For each entry of the flattened lists the number of the list it comes from,
counted from `b`. -/
def sourcesFrom (b : Nat) : List (List α) → List Nat
  | [] => []
  | l :: ls => List.replicate l.length b ++ sourcesFrom (b + 1) ls

theorem sourcesFrom_le {b k : Nat} {ls : List (List α)} (h : k ∈ sourcesFrom b ls) : b ≤ k := by
  induction ls generalizing b with
  | nil => cases h
  | cons l ls ih =>
    rcases List.mem_append.1 h with h | h
    · exact Nat.le_of_eq (List.eq_of_mem_replicate h).symm
    · exact Nat.le_of_succ_le (ih h)

theorem sourcesFrom_spec {b i : Nat} {ls : List (List α)} {a : α} (h : ls.flatten[i]? = some a) :
    ∃ k l, (sourcesFrom b ls)[i]? = some (b + k) ∧ ls[k]? = some l ∧ a ∈ l := by
  induction ls generalizing b i with
  | nil => simp at h
  | cons l ls ih =>
    rw [List.flatten_cons] at h
    by_cases hi : i < l.length
    · rw [List.getElem?_append_left hi] at h
      refine ⟨0, l, ?_, rfl, List.mem_of_getElem? h⟩
      rw [sourcesFrom, List.getElem?_append_left (by simpa using hi)]
      simp [hi]
    · rw [List.getElem?_append_right (by omega)] at h
      obtain ⟨k, m, hk, hm, ha⟩ := ih (b := b + 1) h
      refine ⟨k + 1, m, ?_, hm, ha⟩
      rw [sourcesFrom, List.getElem?_append_right (by simp; omega), List.length_replicate, hk]
      congr 1
      omega

theorem sourcesFrom_eq_nil {b : Nat} {ls : List (List α)} : sourcesFrom b ls = [] ↔ ∀ l ∈ ls, l = [] := by
  induction ls generalizing b with
  | nil => simp [sourcesFrom]
  | cons l ls ih => simp [sourcesFrom, ih]

/-- Lists of at most one entry keep their numbers exactly when none follows an
empty one. -/
theorem sourcesFrom_aligned_iff {b : Nat} {ls : List (List α)} (h : ∀ l ∈ ls, l.length ≤ 1) :
    (∀ i k, (sourcesFrom b ls)[i]? = some k → k = b + i) ↔ ls.Pairwise (fun l m => m ≠ [] → l ≠ []) := by
  induction ls generalizing b with
  | nil => simp [sourcesFrom]
  | cons l ls ih =>
    have hrec := ih (b := b + 1) (fun m hm => h m (List.mem_cons_of_mem _ hm))
    rw [List.pairwise_cons, ← hrec]
    cases l with
    | nil =>
      have hskip : sourcesFrom b ([] :: ls) = sourcesFrom (b + 1) ls := by simp [sourcesFrom]
      rw [hskip]
      constructor
      · intro hall
        -- a first entry would come from a later list
        have hsrc : sourcesFrom (b + 1) ls = [] := by
          by_contra hne
          obtain ⟨k, ks, hk⟩ := List.exists_cons_of_ne_nil hne
          have hmem : k ∈ sourcesFrom (b + 1) ls := by simp [hk]
          have hle := sourcesFrom_le hmem
          have heq := hall 0 k (by simp [hk])
          omega
        exact ⟨fun m hm hne => absurd (sourcesFrom_eq_nil.1 hsrc m hm) hne, by simp [hsrc]⟩
      · rintro ⟨hall, -⟩ i k hk
        have hsrc : sourcesFrom (b + 1) ls = [] :=
          sourcesFrom_eq_nil.2 (fun m hm => by_contra (fun hne => hall m hm hne rfl))
        simp [hsrc] at hk
    | cons x xs =>
      have hxs : xs = [] := by
        have hlen := h (x :: xs) List.mem_cons_self
        rw [List.length_cons] at hlen
        exact List.length_eq_zero_iff.1 (by omega)
      have hfirst : sourcesFrom b ((x :: xs) :: ls) = b :: sourcesFrom (b + 1) ls := by simp [sourcesFrom, hxs]
      rw [hfirst]
      constructor
      · intro hall
        refine ⟨by simp, fun i k hk => ?_⟩
        have heq := hall (i + 1) k (by simpa using hk)
        omega
      · rintro ⟨-, hall⟩ i k hk
        cases i with
        | zero => simpa [eq_comm] using hk
        | succ i =>
          have heq := hall i k (by simpa using hk)
          omega

theorem sourcesFrom_length {b : Nat} {ls : List (List α)} : (sourcesFrom b ls).length = ls.flatten.length := by
  induction ls generalizing b with
  | nil => rfl
  | cons l ls ih => simp [sourcesFrom, ih]

theorem length_flatten_le {ls : List (List α)} (h : ∀ l ∈ ls, l.length ≤ 1) : ls.flatten.length ≤ ls.length := by
  induction ls with
  | nil => exact Nat.le_refl 0
  | cons l ls ih =>
    have hl := h l List.mem_cons_self
    have hls := ih (fun m hm => h m (List.mem_cons_of_mem _ hm))
    rw [List.flatten_cons, List.length_append, List.length_cons]
    omega

theorem length_flatten_eq {ls : List (List α)} (h : ∀ l ∈ ls, l.length = 1) : ls.flatten.length = ls.length := by
  induction ls with
  | nil => rfl
  | cons l ls ih =>
    have hl := h l List.mem_cons_self
    have hls := ih (fun m hm => h m (List.mem_cons_of_mem _ hm))
    rw [List.flatten_cons, List.length_append, List.length_cons]
    omega

/-- Entries that each bring one more, or none. -/
theorem flatMap_toList_perm (f : α → Option α) (l : List α) :
    (l.flatMap (fun a => a :: (f a).toList)).Perm (l ++ l.filterMap f) := by
  induction l with
  | nil => exact .refl _
  | cons a l ih =>
    rw [List.flatMap_cons, List.cons_append, List.cons_append]
    apply List.Perm.cons
    cases hf : f a with
    | none =>
      rw [List.filterMap_cons_none hf]
      exact ih
    | some b =>
      rw [List.filterMap_cons_some hf]
      exact (ih.cons b).trans List.perm_middle.symm

/-- A fold over the flattened lists goes through one list after the other. -/
theorem foldlM_flatMap {β σ : Type} {m : Type → Type} [Monad m] [LawfulMonad m] (f : α → List β) (step : σ → β → m σ)
    (l : List α) (s : σ) : (l.flatMap f).foldlM step s = l.foldlM (fun s a => (f a).foldlM step s) s := by
  induction l generalizing s with
  | nil => rfl
  | cons a l ih =>
    rw [List.flatMap_cons, List.foldlM_append, List.foldlM_cons]
    congr 1
    funext s
    exact ih s

/-! ## Chosen entries among others -/

/-- As many entries as are chosen, taken from the front, are the chosen ones
exactly when no chosen entry comes after another. -/
theorem take_eq_filter_iff {p : α → Bool} {n : Nat} (h : (l.filter p).length = n) :
    l.take n = l.filter p ↔ l.Pairwise (fun a b => p b → p a) := by
  induction l generalizing n with
  | nil => simp
  | cons a l ih =>
    rw [List.pairwise_cons]
    by_cases ha : p a
    · rw [List.filter_cons_of_pos ha] at h ⊢
      obtain ⟨m, rfl⟩ : ∃ m, n = m + 1 := ⟨_, h.symm⟩
      rw [List.take_succ_cons, List.cons.injEq, ih (by simpa using h)]
      simp [ha]
    · rw [List.filter_cons_of_neg ha] at h ⊢
      cases n with
      | zero =>
        have hnone : ∀ b ∈ l, ¬ p b := List.filter_eq_nil_iff.1 (List.length_eq_zero_iff.1 h)
        refine iff_of_true (by rw [List.take_zero, List.length_eq_zero_iff.1 h]) ⟨fun b hb hp => absurd hp (hnone b hb), ?_⟩
        exact List.pairwise_of_forall_mem_list (fun b _ c hc hp => absurd hp (hnone c hc))
      | succ m =>
        -- some chosen entry stands after `a`, so `a` cannot be left out
        obtain ⟨b, hb⟩ : ∃ b, b ∈ l.filter p := List.exists_mem_of_length_pos (by omega)
        refine iff_of_false (fun he => ?_) (fun hall => ha (hall.1 b (List.mem_filter.1 hb).1 (List.mem_filter.1 hb).2))
        have hmem : a ∈ l.filter p := by
          rw [← he, List.take_succ_cons]
          exact List.mem_cons_self
        exact ha (List.mem_filter.1 hmem).2

/-! ## Lists side by side -/

section
variable {β : Type} {bs : List β}

theorem forall₂_of_mapM {f : α → Option β} (h : l.mapM f = some bs) : List.Forall₂ (fun a b => f a = some b) l bs := by
  induction l generalizing bs with
  | nil =>
    obtain rfl : [] = bs := by simpa using h
    exact .nil
  | cons a l ih =>
    rw [List.mapM_cons] at h
    obtain ⟨b, hb, h⟩ := Option.bind_eq_some_iff.1 h
    obtain ⟨cs, hcs, h⟩ := Option.bind_eq_some_iff.1 h
    cases h
    exact .cons hb (ih hcs)

theorem exists_of_forall₂ {R : α → β → Prop} {b : β} (h : List.Forall₂ R l bs) (hb : b ∈ bs) : ∃ a ∈ l, R a b := by
  induction h with
  | nil => cases hb
  | cons hab _ ih =>
    rcases List.mem_cons.1 hb with rfl | hb
    · exact ⟨_, List.mem_cons_self, hab⟩
    · obtain ⟨a, ha, hr⟩ := ih hb
      exact ⟨a, List.mem_cons_of_mem _ ha, hr⟩

/-- An order on entries that depends on a property alone is the same for lists
that have the property at the same places. -/
theorem pairwise_iff_of_forall₂ {p : α → Prop} {q : β → Prop} (h : List.Forall₂ (fun a b => p a ↔ q b) l bs) :
    l.Pairwise (fun a b => p b → p a) ↔ bs.Pairwise (fun a b => q b → q a) := by
  have hmap : l.map p = bs.map q := by
    induction h with
    | nil => rfl
    | cons hab _ ih => rw [List.map_cons, List.map_cons, ih, propext hab]
  have hl : (l.map p).Pairwise (fun a b => b → a) ↔ l.Pairwise (fun a b => p b → p a) := List.pairwise_map
  have hbs : (bs.map q).Pairwise (fun a b => b → a) ↔ bs.Pairwise (fun a b => q b → q a) := List.pairwise_map
  rw [← hl, hmap, hbs]

end

/-- The parts of a concatenation of lists that all have `k` entries. -/
theorem getElem?_flatten_of_length {α : Type} {ls : List (List α)} {k j : Nat} (h : ∀ l ∈ ls, l.length = k) (hj : j < k)
    (i : Nat) : ls.flatten[k * i + j]? = (ls[i]?).bind (fun l => l[j]?) := by
  induction ls generalizing i with
  | nil => simp
  | cons l ls ih =>
    have hl := h l List.mem_cons_self
    rw [List.flatten_cons]
    cases i with
    | zero => rw [Nat.mul_zero, Nat.zero_add, List.getElem?_append_left (hl ▸ hj), List.getElem?_cons_zero, Option.bind_some]
    | succ i =>
      have hle : l.length ≤ k * (i + 1) + j := by
        rw [hl, Nat.mul_add, Nat.mul_one]
        omega
      have hsub : k * (i + 1) + j - l.length = k * i + j := by
        rw [hl, Nat.mul_add, Nat.mul_one]
        omega
      rw [List.getElem?_append_right hle, hsub, ih (fun l hm => h l (List.mem_cons_of_mem _ hm)), List.getElem?_cons_succ]

/-- Two fallible maps over the two sides of a list of pairs: what they yield for
each pair is related. -/
theorem exists_mapM_pairs {α β γ δ : Type} {f : α → Option γ} {g : β → Option δ} {R : α × β → γ → δ → Prop}
    {ps : List (α × β)} (h : ∀ p ∈ ps, ∃ c d, f p.1 = some c ∧ g p.2 = some d ∧ R p c d) :
    ∃ cs ds, (ps.map Prod.fst).mapM f = some cs ∧ (ps.map Prod.snd).mapM g = some ds ∧
      (cs.length = ps.length ∧ ds.length = ps.length) ∧
      ∀ (i : Nat) (p : α × β), ps[i]? = some p → ∃ c d, cs[i]? = some c ∧ ds[i]? = some d ∧ R p c d := by
  induction ps with
  | nil => exact ⟨[], [], rfl, rfl, ⟨rfl, rfl⟩, by simp⟩
  | cons p ps ih =>
    obtain ⟨c, d, hc, hd, hr⟩ := h p List.mem_cons_self
    obtain ⟨cs, ds, hcs, hds, hlen, hrs⟩ := ih (fun q hq => h q (List.mem_cons_of_mem _ hq))
    refine ⟨c :: cs, d :: ds, ?_, ?_, by simp [hlen], fun i q hq => ?_⟩
    · simp [List.mapM_cons, hc, hcs]
    · simp [List.mapM_cons, hd, hds]
    · cases i with
      | zero =>
        obtain rfl : p = q := by simpa using hq
        exact ⟨c, d, rfl, rfl, hr⟩
      | succ i => exact hrs i q (by simpa using hq)

end Lists
