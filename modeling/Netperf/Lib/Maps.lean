import Mathlib.Data.Finmap
/-!
# Maps with numeric keys

`Map α` is a finite map without an order, from `Nat` to `α`; `len` is its
number of entries.
-/

namespace Maps

abbrev Map (α : Type) := Finmap (fun _ : Nat => α)

variable {α : Type}

def len (m : Map α) : Nat := m.keys.card

@[simp] theorem len_empty : len (∅ : Map α) = 0 := rfl

theorem len_eq_zero {m : Map α} : len m = 0 ↔ m = ∅ := by
  constructor
  · intro h
    apply Finmap.ext_lookup
    intro k
    rw [Finmap.lookup_empty, Finmap.lookup_eq_none, ← Finmap.mem_keys, Finset.card_eq_zero.1 h]
    simp
  · rintro rfl
    rfl

theorem keys_insert (m : Map α) (k : Nat) (a : α) : (m.insert k a).keys = insert k m.keys := by
  ext x
  simp [Finmap.mem_keys, Finmap.mem_insert]

theorem len_insert {m : Map α} {k : Nat} (a : α) (h : k ∉ m) : len (m.insert k a) = len m + 1 := by
  rw [len, keys_insert, Finset.card_insert_of_notMem (by rwa [Finmap.mem_keys])]
  rfl

theorem len_erase {m : Map α} {k : Nat} {a : α} (h : m.lookup k = some a) : len (m.erase k) + 1 = len m := by
  have hk : k ∈ m.keys := Finmap.mem_keys.2 (Finmap.mem_of_lookup_eq_some h)
  have hpos := Finset.card_pos.2 ⟨k, hk⟩
  unfold len
  rw [Finmap.keys_erase, Finset.card_erase_of_mem hk]
  omega

theorem lookup_insert_iff {m : Map α} {k k' : Nat} {a b : α} :
    (m.insert k a).lookup k' = some b ↔ (k' = k ∧ a = b) ∨ (k' ≠ k ∧ m.lookup k' = some b) := by
  by_cases h : k' = k
  · subst h
    simp [Finmap.lookup_insert]
  · simp [Finmap.lookup_insert_of_ne _ h, h]

theorem lookup_erase_iff {m : Map α} {k k' : Nat} {b : α} :
    (m.erase k).lookup k' = some b ↔ k' ≠ k ∧ m.lookup k' = some b := by
  by_cases h : k' = k
  · subst h
    simp [Finmap.lookup_erase]
  · simp [Finmap.lookup_erase_ne h, h]

theorem exists_lookup_of_ne_empty {m : Map α} (h : m ≠ ∅) : ∃ k a, m.lookup k = some a := by
  by_contra hc
  simp only [not_exists] at hc
  apply h
  apply Finmap.ext_lookup
  intro k
  rw [Finmap.lookup_empty]
  cases hk : m.lookup k with
  | none => rfl
  | some a => exact absurd hk (hc k a)

/-! ## Entries that stand for places -/

section
variable {m : Map α} {n : Nat} {f : α → Nat}

theorem mapsTo_keys (hf : ∀ k a, m.lookup k = some a → f a < n) :
    Set.MapsTo (fun k => ((m.lookup k).map f).getD 0) m.keys (Finset.range n) := by
  intro k hk
  obtain ⟨a, ha⟩ := Finmap.mem_iff.1 (Finmap.mem_keys.1 hk)
  simpa [ha] using hf k a ha

theorem injOn_keys (hinj : ∀ k k' a a', m.lookup k = some a → m.lookup k' = some a' → f a = f a' → k = k') :
    Set.InjOn (fun k => ((m.lookup k).map f).getD 0) m.keys := by
  intro k hk k' hk' he
  obtain ⟨a, ha⟩ := Finmap.mem_iff.1 (Finmap.mem_keys.1 hk)
  obtain ⟨a', ha'⟩ := Finmap.mem_iff.1 (Finmap.mem_keys.1 hk')
  exact hinj k k' a a' ha ha' (by simpa [ha, ha'] using he)

/-- Entries that stand for different places are no more than the places. -/
theorem len_le_of_places (hf : ∀ k a, m.lookup k = some a → f a < n)
    (hinj : ∀ k k' a a', m.lookup k = some a → m.lookup k' = some a' → f a = f a' → k = k') : len m ≤ n := by
  have h := Finset.card_le_card_of_injOn _ (mapsTo_keys hf) (injOn_keys hinj)
  rwa [Finset.card_range] at h

/-- When there are as many of them as places, every place has its entry. -/
theorem exists_lookup_of_places (hf : ∀ k a, m.lookup k = some a → f a < n)
    (hinj : ∀ k k' a a', m.lookup k = some a → m.lookup k' = some a' → f a = f a' → k = k') (hn : n ≤ len m) {i : Nat}
    (hi : i < n) : ∃ k a, m.lookup k = some a ∧ f a = i := by
  have hs := Finset.surjOn_of_injOn_of_card_le _ (mapsTo_keys hf) (injOn_keys hinj) (by simpa [len] using hn)
  obtain ⟨k, hk, he⟩ := hs (by simpa using hi)
  obtain ⟨a, ha⟩ := Finmap.mem_iff.1 (Finmap.mem_keys.1 hk)
  exact ⟨k, a, ha, by simpa [ha] using he⟩

end

/-- Of one key a map has at most one entry. -/
theorem countP_entries (m : Map α) (k : Nat) (p : α → Prop) [DecidablePred p] :
    m.entries.countP (fun e => e.1 = k ∧ p e.2) = if ∃ a, m.lookup k = some a ∧ p a then 1 else 0 := by
  split
  · rename_i h
    obtain ⟨a, ha, hp⟩ := h
    have hfilter : m.entries.filter (fun e => e.1 = k ∧ p e.2) = {⟨k, a⟩} := by
      apply (Multiset.Nodup.ext (m.nodup_entries.filter _) (Multiset.nodup_singleton _)).2
      rintro ⟨k', b⟩
      rw [Multiset.mem_filter, ← Finmap.lookup_eq_some_iff, Multiset.mem_singleton]
      constructor
      · rintro ⟨hb, rfl, -⟩
        rw [ha, Option.some.injEq] at hb
        rw [hb]
      · rintro heq
        cases heq
        exact ⟨ha, rfl, hp⟩
    rw [Multiset.countP_eq_card_filter, hfilter, Multiset.card_singleton]
  · rename_i h
    apply Multiset.countP_eq_zero.2
    rintro ⟨k', a⟩ ha ⟨rfl, hp⟩
    exact h ⟨a, Finmap.lookup_eq_some_iff.2 ha, hp⟩

/-! ## Going through the entries -/

abbrev Entry (α : Type) := Sigma (fun _ : Nat => α)

/-- The list has the entries of the map, each once, in some order. -/
def Enumerates (m : Map α) (l : List (Entry α)) : Prop := (l : Multiset (Entry α)) = m.entries

section
variable {m : Map α} {l : List (Entry α)}

theorem Enumerates.nodup_keys (h : Enumerates m l) : (l.map Sigma.fst).Nodup := by
  have hm := m.nodupKeys
  rw [← h] at hm
  exact Multiset.coe_nodupKeys.1 hm

theorem Enumerates.length_eq (h : Enumerates m l) : l.length = len m := by
  have hcard : len m = (m.entries.map Sigma.fst).card := rfl
  rw [hcard, Multiset.card_map, ← h, Multiset.coe_card]

theorem Enumerates.mem_keys (h : Enumerates m l) (k : Nat) : k ∈ l.map Sigma.fst ↔ k ∈ m := by
  rw [Finmap.mem_def, ← h]
  simp [Multiset.keys]

/-- The keys, looked up in another map, give the entries of that map that have one of them. -/
theorem Enumerates.lookups_eq (h : Enumerates m l) (m' : Map α) :
    ((l.filterMap (fun e => (m'.lookup e.1).map (Sigma.mk e.1)) : List (Entry α)) : Multiset (Entry α)) =
      m'.entries.filter (fun e => e.1 ∈ m) := by
  have hkeys : l.filterMap (fun e => (m'.lookup e.1).map (Sigma.mk e.1)) =
      (l.map Sigma.fst).filterMap (fun k => (m'.lookup k).map (Sigma.mk k)) := by
    rw [List.filterMap_map]
    rfl
  rw [hkeys]
  apply (Multiset.Nodup.ext _ (m'.nodup_entries.filter _)).2
  · rintro ⟨k, a⟩
    rw [Multiset.mem_coe, List.mem_filterMap, Multiset.mem_filter, ← Finmap.lookup_eq_some_iff, ← h.mem_keys]
    constructor
    · rintro ⟨k', hm, hk'⟩
      obtain ⟨b, hb, heq⟩ := Option.map_eq_some_iff.1 hk'
      cases heq
      exact ⟨hb, hm⟩
    · rintro ⟨ha, hm⟩
      exact ⟨k, hm, by rw [ha]; rfl⟩
  · apply Multiset.coe_nodup.2
    apply h.nodup_keys.filterMap
    intro k k' e he he'
    obtain ⟨a, -, rfl⟩ := Option.map_eq_some_iff.1 he
    obtain ⟨b, -, heq⟩ := Option.map_eq_some_iff.1 he'
    cases heq
    rfl

end

end Maps
