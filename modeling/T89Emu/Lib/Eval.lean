/-
C++ evaluation with undefined behaviour: a computation either delivers
a value or steps outside what the language defines, and then nothing
about the rest of the run is promised.

# Why not a total function

A pointer dereference past the end of an array, a shift by the width of
its operand and the use of a local that no path initialized all compile
and usually run. Modelling them as some harmless value would let every
theorem about runs speak about executions the language says nothing
about; modelling them as a stuck outcome (`Except.error`) keeps such
runs out of the theorems and makes "never reaches undefined behaviour"
a statement one can prove or refute.

The rules below are the usual ones of the exception monad, spelled for
the two shapes proofs meet: a bind that is known to deliver
(`bind_eq_ok`) and a bind whose head is known (`ok_bind`,
`error_bind`).
-/
import Mathlib.Init

namespace Cpp

/-- The undefined behaviours an evaluation can run into. -/
inductive Undefined
  | outOfBounds
  | uninitialized
  | shiftCount
  deriving DecidableEq, Repr

/-- A C++ evaluation: a value, or undefined behaviour. -/
abbrev Eval := Except Undefined

instance {α : Type _} [DecidableEq α] : DecidableEq (Eval α)
  | .ok a, .ok b =>
      if h : a = b then isTrue (by rw [h])
      else isFalse fun he => h (Except.ok.inj he)
  | .error e, .error f =>
      if h : e = f then isTrue (by rw [h])
      else isFalse fun he => h (Except.error.inj he)
  | .ok _, .error _ => isFalse nofun
  | .error _, .ok _ => isFalse nofun

variable {α β : Type _}

/-- Use of a dereference: `none` means that it left its array. -/
def deref : Option α → Eval α
  | some a => .ok a
  | none => .error .outOfBounds

/-- Use of a local variable: `none` means that nothing was stored in it
yet. -/
def initialized : Option α → Eval α
  | some a => .ok a
  | none => .error .uninitialized

@[simp] theorem ok_bind {ε : Type _} (a : α) (f : α → Except ε β) :
    ((Except.ok a : Except ε α) >>= f) = f a := rfl

@[simp] theorem error_bind {ε : Type _} (e : ε) (f : α → Except ε β) :
    ((Except.error e : Except ε α) >>= f) = .error e := rfl

/-- A sequence delivers exactly when both of its halves do. -/
theorem bind_eq_ok {ε : Type _} {x : Except ε α} {f : α → Except ε β}
    {b : β} :
    (x >>= f) = .ok b ↔ ∃ a, x = .ok a ∧ f a = .ok b := by
  cases x with
  | error e => simp
  | ok a => simp

/-- A sequence fails in its first half or in its second one. -/
theorem bind_eq_error {ε : Type _} {x : Except ε α} {f : α → Except ε β}
    {e : ε} :
    (x >>= f) = .error e
      ↔ x = .error e ∨ ∃ a, x = .ok a ∧ f a = .error e := by
  cases x with
  | error e' => simp
  | ok a => simp

/-- A sequence avoids a failure that both of its halves avoid. -/
theorem bind_ne_error {ε : Type _} {x : Except ε α} {f : α → Except ε β}
    {e : ε} (hx : x ≠ .error e) (hf : ∀ a, f a ≠ .error e) :
    (x >>= f) ≠ .error e := by
  intro h
  rcases bind_eq_error.1 h with h | ⟨a, -, h⟩
  · exact hx h
  · exact hf a h

/-- What is observed of a delivered value. -/
theorem map_eq_ok {ε : Type _} {x : Except ε α} {f : α → β} {b : β} :
    x.map f = .ok b ↔ ∃ a, x = .ok a ∧ f a = b := by
  cases x with
  | error e => simp [Except.map]
  | ok a => simp [Except.map]

/-- A sequence whose second part succeeds or not whatever the first one
delivers. -/
theorem exists_bind_iff {ε : Type _} {x : Except ε α}
    {f : α → Except ε β} {Q : Prop}
    (hf : ∀ a, x = .ok a → ((∃ b, f a = .ok b) ↔ Q)) :
    (∃ b, (x >>= f) = .ok b) ↔ (∃ a, x = .ok a) ∧ Q := by
  simp only [bind_eq_ok]
  constructor
  · rintro ⟨b, a, ha, hb⟩
    exact ⟨⟨a, ha⟩, (hf a ha).1 ⟨b, hb⟩⟩
  · rintro ⟨⟨a, ha⟩, hQ⟩
    obtain ⟨b, hb⟩ := (hf a ha).2 hQ
    exact ⟨b, a, ha, hb⟩

/-- A sequence whose second part cannot fail. -/
theorem exists_bind_total {ε : Type _} {x : Except ε α}
    {f : α → Except ε β} (hf : ∀ a, ∃ b, f a = .ok b) :
    (∃ b, (x >>= f) = .ok b) ↔ ∃ a, x = .ok a :=
  (exists_bind_iff fun a _ => iff_of_true (hf a) trivial).trans
    (and_true _).to_iff

/-- Repackaging a value adds no failure. -/
theorem bind_ok_eq_error {ε : Type _} {x : Except ε α} {f : α → β}
    {e : ε} : (x >>= fun a => .ok (f a)) = .error e ↔ x = .error e := by
  cases x with
  | error e' => simp
  | ok a => simp

@[simp] theorem deref_some (a : α) : deref (some a) = .ok a := rfl

@[simp] theorem deref_none : deref (none : Option α) = .error .outOfBounds :=
  rfl

@[simp] theorem initialized_some (a : α) : initialized (some a) = .ok a :=
  rfl

@[simp] theorem initialized_none :
    initialized (none : Option α) = .error .uninitialized := rfl

/-- Only a variable that was assigned can be used. -/
theorem initialized_eq_ok {o : Option α} {a : α} :
    initialized o = .ok a ↔ o = some a := by
  cases o with
  | none => simp
  | some b => simp

end Cpp
