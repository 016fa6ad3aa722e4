import Netperf.Lib.Runs
import Netperf.Lib.Sums
/-!
# What a run costs

A potential that the events of a kind use up bounds their number in every run.
If in addition some event can always use it up until a goal is reached, every
run can be brought there.
-/

namespace Runs

variable {S E : Type} {step : S → E → Option S} {C : S → E → Prop} {s t : S} {es : List E}

/-- Every event `p` counts costs a unit of the effort left. -/
theorem Run.countP_add_le (h : Run step C s es t) (p : E → Bool) (I : S → Prop) (effort : S → Nat) (h0 : I s)
    (hs : ∀ s e t, I s → C s e → step s e = some t → I t ∧ effort t + (if p e then 1 else 0) ≤ effort s) :
    I t ∧ es.countP p + effort t ≤ effort s := by
  induction h with
  | nil => exact ⟨h0, by simp⟩
  | snoc _ hc ht ih =>
    obtain ⟨hi, hle⟩ := ih
    obtain ⟨hi', hcost⟩ := hs _ _ _ hi hc ht
    refine ⟨hi', ?_⟩
    rw [List.countP_append, List.countP_cons, List.countP_nil]
    omega

/-- While the goal is not reached some event makes less of the effort left. -/
theorem exists_run_of_effort (I goal : S → Prop) (effort : S → Nat)
    (hs : ∀ s, I s → goal s ∨ ∃ e t, C s e ∧ step s e = some t ∧ I t ∧ effort t < effort s) (h0 : I s) :
    ∃ es t, Run step C s es t ∧ I t ∧ goal t := by
  suffices main : ∀ n s₀ es, Run step C s es s₀ → I s₀ → effort s₀ ≤ n → ∃ es t, Run step C s es t ∧ I t ∧ goal t from
    main _ s [] .nil h0 (Nat.le_refl _)
  intro n
  induction n with
  | zero =>
    intro s₀ es hrun hi hn
    rcases hs s₀ hi with hg | ⟨e, t, -, -, -, hlt⟩
    · exact ⟨es, s₀, hrun, hi, hg⟩
    · omega
  | succ n ih =>
    intro s₀ es hrun hi hn
    rcases hs s₀ hi with hg | ⟨e, t, hc, ht, hi', hlt⟩
    · exact ⟨es, s₀, hrun, hi, hg⟩
    · exact ih t (es ++ [e]) (hrun.snoc hc ht) hi' (by omega)

end Runs

namespace Sums

variable {α : Type} {f : α → Nat} {l : List α}

/-- Replacing an entry changes the total by the difference. -/
theorem sum_map_set {i : Nat} {a b : α} (h : l[i]? = some a) :
    ((l.set i b).map f).sum + f a = (l.map f).sum + f b := by
  induction l generalizing i with
  | nil => cases h
  | cons c l ih =>
    cases i with
    | zero =>
      obtain rfl : c = a := by simpa using h
      simp only [List.set_cons_zero, List.map_cons, List.sum_cons]
      omega
    | succ i =>
      have := ih (i := i) (by simpa using h)
      simp only [List.set_cons_succ, List.map_cons, List.sum_cons]
      omega

/-- Entries that each grow by one at most. -/
theorem sum_map_mapIdx_le {g : Nat → α → α} (h : ∀ i a, f (g i a) ≤ f a + 1) :
    ((l.mapIdx g).map f).sum ≤ (l.map f).sum + l.length := by
  induction l generalizing g with
  | nil => simp
  | cons a l ih =>
    have hrest := ih (g := fun i => g (i + 1)) (fun i a => h (i + 1) a)
    have hhead := h 0 a
    rw [List.mapIdx_cons]
    simp only [List.map_cons, List.sum_cons, List.length_cons]
    omega

end Sums
