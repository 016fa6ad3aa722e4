import Mathlib.Data.List.Basic
/-!
# Runs of a step function

A system is a step function `step : S → E → Option S`: the state an enabled
event leads to. `exec` runs a list of events. `Run step C s es t` is a run
from `s` to `t` whose every event meets the condition `C` on the state before
it; `Any` is the condition of an unrestricted run.

A theorem about every `Run` holds for every interleaving of the events.
-/

namespace Runs

variable {S E O : Type}

/-- The state after the events, `none` as soon as one of them is not enabled. -/
def exec (step : S → E → Option S) (s : S) : List E → Option S
  | [] => some s
  | e :: es => (step s e).bind (fun t => exec step t es)

/-- A run from `s` whose every event meets `C`. -/
inductive Run (step : S → E → Option S) (C : S → E → Prop) (s : S) : List E → S → Prop
  | nil : Run step C s [] s
  | snoc {es : List E} {t u : S} {e : E} :
      Run step C s es t → C t e → step t e = some u → Run step C s (es ++ [e]) u

/-- The condition every event meets. -/
def Any (_ : S) (_ : E) : Prop := True

/-- The states an unrestricted run reaches. -/
def Reach (step : S → E → Option S) (s t : S) : Prop := ∃ es, Run step Any s es t

variable {step : S → E → Option S} {C D : S → E → Prop} {s t u : S} {es fs : List E} {e : E}

theorem Reach.refl : Reach step s s := ⟨[], .nil⟩

theorem Reach.next (h : Reach step s t) (ht : step t e = some u) : Reach step s u := by
  obtain ⟨es, h⟩ := h
  exact ⟨es ++ [e], .snoc h trivial ht⟩

theorem Run.mono (h : Run step C s es t) (hCD : ∀ s e, C s e → D s e) : Run step D s es t := by
  induction h with
  | nil => exact .nil
  | snoc _ hc hs ih => exact .snoc ih (hCD _ _ hc) hs

theorem Run.reach (h : Run step C s es t) : Reach step s t := ⟨es, h.mono (fun _ _ _ => trivial)⟩

theorem Run.trans (h : Run step C s es t) (h' : Run step C t fs u) : Run step C s (es ++ fs) u := by
  induction h' with
  | nil => simpa using h
  | snoc _ hc hs ih => rw [← List.append_assoc]; exact .snoc ih hc hs

theorem Run.last (h : Run step C s (es ++ [e]) u) : ∃ t, Run step C s es t ∧ C t e ∧ step t e = some u := by
  generalize hes : es ++ [e] = fs at h
  cases h with
  | nil => simp at hes
  | snoc h hc hs =>
    obtain ⟨rfl, rfl⟩ := List.concat_inj.1 (by simpa using hes)
    exact ⟨_, h, hc, hs⟩

theorem Reach.trans (h : Reach step s t) (h' : Reach step t u) : Reach step s u := by
  obtain ⟨es, h⟩ := h
  obtain ⟨fs, h'⟩ := h'
  exact ⟨es ++ fs, h.trans h'⟩

/-- An invariant that every allowed event keeps holds after every run. -/
theorem Run.inv (I : S → Prop) (h : Run step C s es t) (h0 : I s)
    (hs : ∀ s e t, I s → C s e → step s e = some t → I t) : I t := by
  induction h with
  | nil => exact h0
  | snoc _ hc ht ih => exact hs _ _ _ ih hc ht

theorem Reach.inv (I : S → Prop) (h : Reach step s t) (h0 : I s)
    (hs : ∀ s e t, I s → step s e = some t → I t) : I t := by
  obtain ⟨es, h⟩ := h
  exact h.inv I h0 (fun s e t hi _ ht => hs s e t hi ht)

/-! ## Evaluating a run -/

theorem exec_append (es fs : List E) : exec step s (es ++ fs) = (exec step s es).bind (fun t => exec step t fs) := by
  induction es generalizing s with
  | nil => rfl
  | cons e es ih =>
    simp only [List.cons_append, exec]
    cases step s e with
    | none => rfl
    | some t => exact ih

/-- `step`, with the events that do not meet `C` switched off. -/
def guarded (step : S → E → Option S) (C : S → E → Prop) [∀ s e, Decidable (C s e)] (s : S) (e : E) : Option S :=
  if C s e then step s e else none

/-- A run that evaluates is a run. -/
theorem run_of_exec [∀ s e, Decidable (C s e)] (h : exec (guarded step C) s es = some t) : Run step C s es t := by
  have main : ∀ es s₀, exec (guarded step C) s₀ es = some t → ∀ pre, Run step C s pre s₀ → Run step C s (pre ++ es) t := by
    intro es
    induction es with
    | nil =>
      intro s₀ h pre hp
      simp only [exec, Option.some.injEq] at h
      subst h
      simpa using hp
    | cons e es ih =>
      intro s₀ h pre hp
      simp only [exec, Option.bind_eq_some_iff] at h
      obtain ⟨s₁, h1, h2⟩ := h
      simp only [guarded, Option.ite_none_right_eq_some] at h1
      rw [List.append_cons]
      exact ih s₁ h2 (pre ++ [e]) (.snoc hp h1.1 h1.2)
  simpa using main es s h [] .nil

theorem exists_run_of_exec (step : S → E → Option S) (C : S → E → Prop) [∀ s e, Decidable (C s e)] (s : S)
    (es : List E) (p : S → Bool) (h : (exec (guarded step C) s es).any p = true) : ∃ t, Run step C s es t ∧ p t = true := by
  cases ht : exec (guarded step C) s es with
  | none => simp [ht] at h
  | some t => exact ⟨t, run_of_exec ht, by simpa [ht] using h⟩

theorem reach_of_exec (h : exec step s es = some t) : Reach step s t := by
  induction es generalizing s with
  | nil =>
    simp only [exec, Option.some.injEq] at h
    exact h ▸ .refl
  | cons e es ih =>
    simp only [exec, Option.bind_eq_some_iff] at h
    obtain ⟨s₁, h1, h2⟩ := h
    exact (Reach.refl.next h1).trans (ih h2)

theorem exists_of_exec (step : S → E → Option S) (s : S) (es : List E) (p : S → Bool) (h : (exec step s es).any p = true) :
    ∃ t, Reach step s t ∧ p t = true := by
  cases ht : exec step s es with
  | none => simp [ht] at h
  | some t => exact ⟨t, reach_of_exec ht, by simpa [ht] using h⟩

theorem Run.exec_eq (h : Run step C s es t) : exec step s es = some t := by
  induction h with
  | nil => rfl
  | snoc _ _ ht ih => rw [exec_append, ih]; simp [exec, ht]

instance (s : S) (e : E) : Decidable (Any s e) := .isTrue trivial

/-! ## Logs -/

/-- What the steps of a run let out, in order. -/
def log (step : S → E → Option S) (out : S → E → List O) (s : S) : List E → List O
  | [] => []
  | e :: es => out s e ++ ((step s e).map (fun t => log step out t es)).getD []

theorem log_append (out : S → E → List O) (h : exec step s es = some t) (fs : List E) :
    log step out s (es ++ fs) = log step out s es ++ log step out t fs := by
  induction es generalizing s with
  | nil =>
    simp only [exec, Option.some.injEq] at h
    subst h
    rfl
  | cons e es ih =>
    simp only [exec, Option.bind_eq_some_iff] at h
    obtain ⟨s₁, h1, h2⟩ := h
    simp only [List.cons_append, log, h1, Option.map_some, Option.getD_some, ih h2, List.append_assoc]

/-- One more step adds what it lets out. -/
theorem Run.log_snoc (h : Run step C s es t) (out : S → E → List O) (e : E) :
    log step out s (es ++ [e]) = log step out s es ++ out t e := by
  rw [log_append out h.exec_eq]
  unfold log
  cases step t e <;> simp [log]

/-- An invariant of the state and of what has been let out so far. -/
theorem Run.inv_log {out : S → E → List O} (I : List O → S → Prop) (h : Run step C s es t) (h0 : I [] s)
    (hs : ∀ os s e t, I os s → C s e → step s e = some t → I (os ++ out s e) t) : I (log step out s es) t := by
  induction h with
  | nil => exact h0
  | snoc h hc ht ih =>
    rw [h.log_snoc]
    exact hs _ _ _ _ ih hc ht

/-- What one of two observers notes. -/
theorem mem_log_append {out out' : S → E → List O} {o : O} {s : S} {es : List E} :
    o ∈ log step (fun s e => out s e ++ out' s e) s es ↔ o ∈ log step out s es ∨ o ∈ log step out' s es := by
  induction es generalizing s with
  | nil => simp [log]
  | cons e es ih =>
    simp only [log, List.mem_append]
    cases step s e with
    | none => simp
    | some t =>
      simp only [Option.map_some, Option.getD_some, ih]
      tauto

end Runs
