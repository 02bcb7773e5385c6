/-
C++ evaluation of a program that can also end on its own account: what
`Lib/Eval.lean` says of a value, with the ways to stop that code outside
the emulator's core has.

`dangling` is the use of an object that was deleted, `exit` the call of
that name. `running` is the outcome of a loop that
was still going when the fuel of its definition was spent; a definition
with fuel is shown to be given enough of it where a result about it says
that it returns.

A computation that can only be undefined is one of these as well
(`MonadLift`), so the two are mixed freely in one `do`.
-/
import T89Emu.Lib.Eval

namespace Cpp

/-- The ways an evaluation can fail to deliver a value. -/
inductive Halt
  | undefined (behaviour : Undefined)
  | divisionByZero
  | signedOverflow
  | nullDereference
  | dangling
  | exit
  | running
  deriving DecidableEq, Repr

/-- An evaluation of a process. -/
abbrev Proc := Except Halt

instance {α : Type _} [DecidableEq α] : DecidableEq (Proc α)
  | .ok a, .ok b =>
      if h : a = b then isTrue (by rw [h])
      else isFalse fun he => h (Except.ok.inj he)
  | .error e, .error f =>
      if h : e = f then isTrue (by rw [h])
      else isFalse fun he => h (Except.error.inj he)
  | .ok _, .error _ => isFalse nofun
  | .error _, .ok _ => isFalse nofun

/-- An evaluation that can only be undefined, as part of a process. -/
def Eval.toProc {α : Type _} (x : Eval α) : Proc α :=
  x.mapError .undefined

instance : MonadLift Eval Proc := ⟨Eval.toProc⟩

variable {α β : Type _}

@[simp] theorem pure_eq_ok {ε : Type _} (a : α) :
    (pure a : Except ε α) = .ok a := rfl

@[simp] theorem throw_eq_error {ε : Type _} (e : ε) :
    (throw e : Except ε α) = .error e := rfl

@[simp] theorem toProc_ok (a : α) :
    Eval.toProc (.ok a) = (.ok a : Proc α) := rfl

@[simp] theorem toProc_error (e : Undefined) :
    Eval.toProc (.error e) = (.error (.undefined e) : Proc α) := rfl

theorem toProc_eq_ok {x : Eval α} {a : α} :
    Eval.toProc x = .ok a ↔ x = .ok a := by
  cases x with
  | error e => simp
  | ok b => simp

/-- What can only be undefined fails in no other way. -/
theorem undefined_of_toProc {x : Eval α} {e : Halt}
    (h : Eval.toProc x = .error e) : ∃ u, e = .undefined u := by
  cases x with
  | error u => exact ⟨u, (Except.error.inj h).symm⟩
  | ok a => cases h

theorem toProc_ne_running (x : Eval α) :
    Eval.toProc x ≠ .error .running := by
  intro h
  obtain ⟨_, ⟨⟩⟩ := undefined_of_toProc h

end Cpp
