import Mathlib.Logic.Function.Basic

/-!
# Runs of a transition system

A system is a partial step function: an action that is not enabled in a state has no result.
-/

namespace Scenery

variable {σ α : Type}

instance neZero_two : @NeZero Nat Zero.ofOfNat0 2 := ⟨Nat.succ_ne_zero 1⟩

section Update

variable {ι β γ : Type} [DecidableEq ι] {f : ι → β} {i j : ι} {x : β}

/-- What is seen of an updated function, where it was updated and elsewhere. -/
theorem seen_update_cases (g : β → γ) {y : γ} (h : g (Function.update f i x j) = y) :
    j = i ∧ g x = y ∨ j ≠ i ∧ g (f j) = y := by
  by_cases hji : j = i
  · rw [hji, Function.update_self] at h
    exact .inl ⟨hji, h⟩
  · rw [Function.update_of_ne hji] at h
    exact .inr ⟨hji, h⟩

theorem update_cases {y : β} (h : Function.update f i x j = y) :
    j = i ∧ x = y ∨ j ≠ i ∧ f j = y :=
  seen_update_cases id h

end Update

/-- The states that runs from `s₀` reach, when every step meets the condition. -/
inductive Run (step : σ → α → Option σ) (ok : σ → α → Prop) (s₀ : σ) : σ → Prop where
  | refl : Run step ok s₀ s₀
  | snoc {s s' : σ} {a : α} (h : Run step ok s₀ s) (hok : ok s a) (hs : step s a = some s') :
    Run step ok s₀ s'

namespace Run

variable {step : σ → α → Option σ} {ok : σ → α → Prop} {s₀ s s' : σ}

theorem invariant {P : σ → Prop} (h : Run step ok s₀ s) (h₀ : P s₀)
    (hstep : ∀ s a s', P s → ok s a → step s a = some s' → P s') : P s := by
  induction h with
  | refl => exact h₀
  | snoc _ hok hs ih => exact hstep _ _ _ ih hok hs

theorem trans (h : Run step ok s₀ s) (h' : Run step ok s s') : Run step ok s₀ s' := by
  induction h' with
  | refl => exact h
  | snoc _ hok hs ih => exact ih.snoc hok hs

end Run

def runAll (step : σ → α → Option σ) (ok : σ → α → Prop) [∀ s a, Decidable (ok s a)] :
    σ → List α → Option σ
  | s, [] => some s
  | s, a :: rest => if ok s a then (step s a).bind fun s' => runAll step ok s' rest else none

variable {step : σ → α → Option σ} {ok : σ → α → Prop}

theorem Run.of_runAll [∀ s a, Decidable (ok s a)] {actions : List α} {s s' : σ}
    (h : runAll step ok s actions = some s') : Run step ok s s' := by
  induction actions generalizing s with
  | nil =>
    cases h
    exact .refl
  | cons a rest ih =>
    simp only [runAll] at h
    split at h
    · rename_i hok
      obtain ⟨s₁, hs₁, hrest⟩ := Option.bind_eq_some_iff.mp h
      exact (Run.refl.snoc hok hs₁).trans (ih hrest)
    · cases h

variable {s₀ : σ}

theorem Run.exists_of_runAll [∀ s a, Decidable (ok s a)] (actions : List α) {p : σ → Bool}
    (h : (runAll step ok s₀ actions).any p = true) : ∃ s, Run step ok s₀ s ∧ p s = true := by
  cases hs : runAll step ok s₀ actions with rw [hs] at h
  | none =>
    cases h
  | some s =>
    exact ⟨s, .of_runAll hs, h⟩

/-- A run that is executed to a state of `P` ends in one of `Q`, if the states of `P` that are
reached are. -/
theorem Run.exists_of_decide [∀ s a, Decidable (ok s a)] {P Q : σ → Prop} [DecidablePred P]
    (actions : List α) (h : (runAll step ok s₀ actions).any (fun s => decide (P s)) = true)
    (hQ : ∀ s, Run step ok s₀ s → P s → Q s) : ∃ s, Run step ok s₀ s ∧ Q s := by
  obtain ⟨s, hrun, hs⟩ := Run.exists_of_runAll actions h
  exact ⟨s, hrun, hQ s hrun (of_decide_eq_true hs)⟩

theorem Run.exists_decide [∀ s a, Decidable (ok s a)] {P : σ → Prop} [DecidablePred P]
    (actions : List α) (h : (runAll step ok s₀ actions).any (fun s => decide (P s)) = true) :
    ∃ s, Run step ok s₀ s ∧ P s :=
  Run.exists_of_decide actions h fun _ _ hs => hs

end Scenery
