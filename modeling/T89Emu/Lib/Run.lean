/-
Runs of a partial deterministic machine: `step` either delivers the
next state or gets stuck, and `steps n` iterates it.

`holds_along_iff` is the invariant rule in its sharp form, for a
property that single steps can break: along a run, the property holds
in every state reached exactly when every step that is taken starts in
a state where it does no harm.
-/
import Mathlib.Tactic.ByContra
import T89Emu.Lib.Eval

namespace Run

open Cpp

variable {σ ε : Type _} (step : σ → Except ε σ)

/-- `n` steps from `s`. -/
def steps : Nat → σ → Except ε σ
  | 0, s => .ok s
  | n + 1, s => steps n s >>= step

@[simp] theorem steps_zero (s : σ) : steps step 0 s = .ok s := rfl

variable {step}

/-- A run of `n + 1` steps is a run of `n` steps and one more. -/
theorem steps_succ_eq_ok {n : Nat} {s t : σ} :
    steps step (n + 1) s = .ok t
      ↔ ∃ u, steps step n s = .ok u ∧ step u = .ok t :=
  bind_eq_ok

/-- It is one step and a run of `n` steps as well. -/
theorem steps_succ_front (n : Nat) (s : σ) :
    steps step (n + 1) s = step s >>= steps step n := by
  induction n with
  | zero =>
      cases h : step s with
      | error e => exact h
      | ok t => exact h
  | succ n ih =>
      show steps step (n + 1) s >>= step = _
      rw [ih]
      cases step s with
      | error e => rfl
      | ok t => rfl

/-- A run after a run. -/
theorem steps_add {n m : Nat} {s t u : σ} (h : steps step n s = .ok t)
    (h' : steps step m t = .ok u) : steps step (n + m) s = .ok u := by
  induction m generalizing u with
  | zero =>
      rw [steps_zero] at h'
      exact h' ▸ h
  | succ m ih =>
      obtain ⟨v, hv, hvu⟩ := steps_succ_eq_ok.1 h'
      exact steps_succ_eq_ok.2 ⟨v, ih hv, hvu⟩

/-- What every step preserves, a run preserves. -/
theorem invariant {P : σ → Prop}
    (hstep : ∀ u v, P u → step u = .ok v → P v) {n : Nat} {s t : σ}
    (h0 : P s) (h : steps step n s = .ok t) : P t := by
  induction n generalizing t with
  | zero =>
      rw [steps_zero, Except.ok.injEq] at h
      exact h ▸ h0
  | succ n ih =>
      obtain ⟨u, hu, hut⟩ := steps_succ_eq_ok.1 h
      exact hstep u t (ih hu) hut

/-- `P` holds in each state that the first `n` steps reach, the start
included. -/
def HoldsAlong (step : σ → Except ε σ) (P : σ → Prop) (s : σ) (n : Nat) :
    Prop :=
  ∀ m ≤ n, ∀ t, steps step m s = .ok t → P t

/-- When `C` says exactly which steps keep `P`, a run keeps `P`
throughout exactly when each state it steps from satisfies `C`. -/
theorem holds_along_iff {P C : σ → Prop} {s : σ} (h0 : P s)
    (hkeep : ∀ u v, P u → C u → step u = .ok v → P v)
    (hbreak : ∀ u, P u → ¬ C u → ∃ v, step u = .ok v ∧ ¬ P v) (n : Nat) :
    HoldsAlong step P s n
      ↔ ∀ m < n, ∀ t, steps step m s = .ok t → C t := by
  constructor
  · intro hP m hm t ht
    by_contra hC
    obtain ⟨v, hv, hPv⟩ := hbreak t (hP m (by omega) t ht) hC
    exact hPv (hP (m + 1) (by omega) v (steps_succ_eq_ok.2 ⟨t, ht, hv⟩))
  · intro hC m
    induction m with
    | zero =>
        intro _ t ht
        rw [steps_zero, Except.ok.injEq] at ht
        exact ht ▸ h0
    | succ m ih =>
        intro hm t ht
        obtain ⟨u, hu, hut⟩ := steps_succ_eq_ok.1 ht
        exact hkeep u t (ih (by omega) u hu) (hC m (by omega) u hu) hut

end Run
