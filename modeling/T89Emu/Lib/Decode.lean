/-
Decoders over a list of symbols.

A cursor is a position in a list: `rest` is what lies in front of it,
`skip n` moves it `n` symbols on. A decoder is a state computation over
a cursor that may fail.

`Reads p w a` says that `p` accepts exactly the word `w` and delivers
`a`: in front of `w`, and whatever follows it, `p` returns `a` and the
cursor behind `w`. Stated with an arbitrary continuation the property
composes: a sequence of decoders reads the concatenation of their words
(`Reads.bind`, `Reads.then`), so that a decoder for a format is shown
right by following the format's own structure. `Takes p w x` is the same
for a decoder that may also fail on the word: whatever follows, its
outcome is `x`. `Delivers` says of the value alone what holds wherever the
decoder starts, `Avoids` which failure it never ends in, and `Advances`
that it does nothing to the cursor but move it on.
-/
import Mathlib.Data.List.Basic
import T89Emu.Lib.Eval

namespace Decode

open Cpp

/-- A position in a list of symbols. -/
class Cursor (σ : Type _) (β : outParam (Type _)) where
  rest : σ → List β
  skip : Nat → σ → σ
  skip_zero : ∀ s, skip 0 s = s
  skip_skip : ∀ m n s, skip n (skip m s) = skip (m + n) s
  rest_skip : ∀ n s, rest (skip n s) = (rest s).drop n

open Cursor

variable {σ β ε α γ : Type _} [Cursor σ β]

/-- The decoder accepts exactly the word and delivers the value. -/
def Reads (p : StateT σ (Except ε) α) (w : List β) (a : α) : Prop :=
  ∀ s t, rest s = w ++ t → p.run s = .ok (a, skip w.length s)

/-- Behind a word that was skipped lies what followed it. -/
theorem rest_skip_append {s : σ} {w t : List β} (h : rest s = w ++ t) :
    rest (skip w.length s) = t := by
  rw [rest_skip, h, List.drop_left]

theorem Reads.pure (a : α) :
    Reads (Pure.pure a : StateT σ (Except ε) α) ([] : List β) a := by
  intro s t _
  rw [List.length_nil, skip_zero]
  rfl

/-- A sequence reads the concatenation. -/
theorem Reads.bind {p : StateT σ (Except ε) α}
    {f : α → StateT σ (Except ε) γ} {v w : List β} {a : α} {c : γ}
    (hp : Reads p v a) (hf : Reads (f a) w c) :
    Reads (p >>= f) (v ++ w) c := by
  intro s t hs
  rw [List.append_assoc] at hs
  have hnext := hf _ t (rest_skip_append hs)
  rw [StateT.run_bind, hp s _ hs, ok_bind, hnext, skip_skip,
    List.length_append]

/-- What is done with the value afterwards may read nothing. -/
theorem Reads.then {p : StateT σ (Except ε) α}
    {f : α → StateT σ (Except ε) γ} {v : List β} {a : α} {c : γ}
    (hp : Reads p v a) (hf : Reads (f a) [] c) :
    Reads (p >>= f) v c := by
  have h := hp.bind hf
  rwa [List.append_nil] at h

/-- A computation that does not look at the cursor. -/
theorem Reads.lift {x : Except ε α} {a : α} (h : x = .ok a) :
    Reads (StateT.lift x : StateT σ (Except ε) α) ([] : List β) a := by
  rw [h]
  exact Reads.pure a

/-- On the word the decoder has this outcome, whatever follows: a value,
the cursor behind the word, or a failure. -/
def Takes (p : StateT σ (Except ε) α) (w : List β) (x : Except ε α) :
    Prop :=
  ∀ s t, rest s = w ++ t →
    p.run s = x.map fun a => (a, skip w.length s)

theorem Reads.takes {p : StateT σ (Except ε) α} {w : List β} {a : α}
    (h : Reads p w a) : Takes p w (.ok a) := h

theorem Takes.reads {p : StateT σ (Except ε) α} {w : List β}
    {x : Except ε α} (h : Takes p w x) {a : α} (hx : x = .ok a) :
    Reads p w a := by
  subst hx
  exact h

/-- A sequence takes the concatenation; behind a failure nothing is
taken. -/
theorem Takes.bind {p : StateT σ (Except ε) α}
    {f : α → StateT σ (Except ε) γ} {v w : List β} {x : Except ε α}
    {g : α → Except ε γ} (hp : Takes p v x)
    (hf : ∀ a, Takes (f a) w (g a)) : Takes (p >>= f) (v ++ w) (x >>= g) := by
  intro s t hs
  rw [List.append_assoc] at hs
  rw [StateT.run_bind, hp s _ hs]
  cases x with
  | error e => rfl
  | ok a =>
      have hnext := hf a _ t (rest_skip_append hs)
      show (f a).run (skip v.length s) = (g a).map _
      rw [hnext, skip_skip, List.length_append]

/-- Behind a part that delivers a value. -/
theorem Takes.after {p : StateT σ (Except ε) α}
    {f : α → StateT σ (Except ε) γ} {v w : List β} {a : α}
    {y : Except ε γ} (hp : Reads p v a) (hf : Takes (f a) w y) :
    Takes (p >>= f) (v ++ w) y := by
  intro s t hs
  rw [List.append_assoc] at hs
  have hnext := hf _ t (rest_skip_append hs)
  rw [StateT.run_bind, hp s _ hs, ok_bind, hnext, skip_skip,
    List.length_append]

/-- A sequence whose second part reads nothing. -/
theorem Takes.then {p : StateT σ (Except ε) α}
    {f : α → StateT σ (Except ε) γ} {v : List β} {x : Except ε α}
    {g : α → Except ε γ} (hp : Takes p v x)
    (hf : ∀ a, Takes (f a) [] (g a)) : Takes (p >>= f) v (x >>= g) := by
  have h := hp.bind hf
  rwa [List.append_nil] at h

/-- A computation that does not look at the cursor. -/
theorem Takes.lift (x : Except ε α) :
    Takes (StateT.lift x : StateT σ (Except ε) α) ([] : List β) x := by
  cases x with
  | error e => exact fun _ _ _ => rfl
  | ok a => exact Reads.pure a

/-- What the decoder delivers has a property, wherever it starts. -/
def Delivers (P : α → Prop) (p : StateT σ (Except ε) α) : Prop :=
  ∀ s a s', p s = .ok (a, s') → P a

omit [Cursor σ β] in
theorem Delivers.pure {P : α → Prop} {a : α} (h : P a) :
    Delivers P (Pure.pure a : StateT σ (Except ε) α) := by
  intro s b s' hb
  obtain ⟨rfl, -⟩ := Prod.mk.inj (Except.ok.inj hb)
  exact h

omit [Cursor σ β] in
/-- Only the last part of a sequence matters. -/
theorem Delivers.bind {P : γ → Prop} {p : StateT σ (Except ε) α}
    {f : α → StateT σ (Except ε) γ} (h : ∀ a, Delivers P (f a)) :
    Delivers P (p >>= f) := by
  intro s b s' hb
  obtain ⟨⟨a, s₁⟩, -, hf⟩ := bind_eq_ok.1 hb
  exact h a s₁ b s' hf

/-- The decoder does not fail in this way, wherever it starts. -/
def Avoids (e : ε) (p : StateT σ (Except ε) α) : Prop :=
  ∀ s, p s ≠ .error e

variable {e : ε}

omit [Cursor σ β] in
theorem Avoids.lift {x : Except ε α} (h : x ≠ .error e) :
    Avoids e (StateT.lift x : StateT σ (Except ε) α) := by
  exact fun _ => bind_ne_error h fun _ => nofun

omit [Cursor σ β] in
theorem Avoids.pure (a : α) :
    Avoids e (Pure.pure a : StateT σ (Except ε) α) := by
  intro s hs
  cases hs

omit [Cursor σ β] in
theorem Avoids.bind {p : StateT σ (Except ε) α}
    {f : α → StateT σ (Except ε) γ} (hp : Avoids e p)
    (hf : ∀ a, Avoids e (f a)) : Avoids e (p >>= f) := by
  exact fun s => bind_ne_error (hp s) fun r => hf r.1 r.2

/-- The decoder moves the cursor on, by some number of symbols. -/
def Advances (p : StateT σ (Except ε) α) : Prop :=
  ∀ s a s', p s = .ok (a, s') → ∃ n, s' = skip n s

theorem Advances.pure (a : α) :
    Advances (Pure.pure a : StateT σ (Except ε) α) := by
  intro s b s' h
  obtain ⟨-, rfl⟩ := Prod.mk.inj (Except.ok.inj h)
  exact ⟨0, (skip_zero s).symm⟩

/-- A computation that does not look at the cursor. -/
theorem Advances.lift (x : Except ε α) :
    Advances (StateT.lift x : StateT σ (Except ε) α) := by
  intro s b s' h
  obtain ⟨_, -, h⟩ := bind_eq_ok.1 h
  obtain ⟨-, rfl⟩ := Prod.mk.inj (Except.ok.inj h)
  exact ⟨0, (skip_zero s).symm⟩

theorem Advances.get : Advances (MonadState.get : StateT σ (Except ε) σ) := by
  intro s b s' h
  obtain ⟨-, rfl⟩ := Prod.mk.inj (Except.ok.inj h)
  exact ⟨0, (skip_zero s).symm⟩

theorem Advances.bind {p : StateT σ (Except ε) α}
    {f : α → StateT σ (Except ε) γ} (hp : Advances p)
    (hf : ∀ a, Advances (f a)) : Advances (p >>= f) := by
  intro s b s' h
  obtain ⟨⟨a, s₁⟩, hfirst, hrest⟩ := bind_eq_ok.1 h
  obtain ⟨m, rfl⟩ := hp s a s₁ hfirst
  obtain ⟨n, rfl⟩ := hf a _ b s' hrest
  exact ⟨m + n, skip_skip m n s⟩

end Decode
