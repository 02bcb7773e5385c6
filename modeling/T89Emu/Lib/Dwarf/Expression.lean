/-
Location expressions of DWARF over four operations: the literals, an
address, an offset from the frame base, and the canonical frame address
(CFA).

Each operation pushes one value, and the last one pushed is the location.
The frame base is given by an expression of its own, in which an offset
from the frame base has no meaning.

`location_eq_iff` says how a location depends on the CFA: it follows it
when its last operation does, and is the same for every CFA otherwise.
-/
import T89Emu.Lib.Bytes
import T89Emu.Lib.Leb128

namespace LocationExpr

open Bytes

inductive Op
  | lit (n : BitVec 5)
  | addr (address : BitVec 32)
  | fbreg (offset : Leb128)
  | callFrameCfa
  deriving DecidableEq, Repr

/-- The bytes that stand for an operation. -/
def Op.bytes : Op → List (BitVec 8)
  | lit n => [0x30#8 + n.setWidth 8]
  | addr address =>
      [0x03, byteOf address 0, byteOf address 1, byteOf address 2,
        byteOf address 3]
  | fbreg offset => 0x91 :: offset.bytes
  | callFrameCfa => [0x9c]

/-- The bytes of an expression. -/
def bytes (ops : List Op) : List (BitVec 8) := ops.flatMap Op.bytes

@[simp] theorem bytes_nil : bytes [] = [] := rfl

@[simp] theorem bytes_cons (op : Op) (ops : List Op) :
    bytes (op :: ops) = op.bytes ++ bytes ops := rfl

-- =============================================================== meaning

/-- What an operation pushes; without a frame base an offset from it has
no value. -/
def Op.value (frameBase : Option (BitVec 32)) (cfa : BitVec 32) :
    Op → Option (BitVec 32)
  | lit n => some (n.setWidth 32)
  | addr address => some address
  | fbreg offset => frameBase.map (BitVec.ofInt 32 offset.signed + ·)
  | callFrameCfa => some cfa

/-- The value on top of the stack behind an expression. -/
def top (ops : List Op) (frameBase : Option (BitVec 32))
    (cfa : BitVec 32) : Option (BitVec 32) :=
  ops.getLast?.bind (·.value frameBase cfa)

/-- The location of an expression whose frame base is given by another
one. -/
def location (ops frameBase : List Op) (cfa : BitVec 32) :
    Option (BitVec 32) :=
  top ops (top frameBase none cfa) cfa

-- ========================================================= the CFA in it

/-- Evaluating the operation takes the CFA. -/
def Op.UsesCfa (frameBase : List Op) : Op → Prop
  | callFrameCfa => True
  | fbreg _ => callFrameCfa ∈ frameBase
  | _ => False

/-- Some operation takes the CFA. -/
def UsesCfa (ops frameBase : List Op) : Prop :=
  ∃ op ∈ ops, op.UsesCfa frameBase

/-- The operation pushes the CFA, or an offset from a frame base that is
the CFA. -/
def Op.IsCfa (frameBase : List Op) : Op → Prop
  | callFrameCfa => True
  | fbreg _ => frameBase.getLast? = some callFrameCfa
  | _ => False

/-- The last operation is one of these. -/
def EndsInCfa (ops frameBase : List Op) : Prop :=
  ∃ op, ops.getLast? = some op ∧ op.IsCfa frameBase

/-- A frame base that is not the CFA is the same for every CFA. -/
theorem top_eq_of_not_cfa {frameBase : List Op} (cfa cfa' : BitVec 32)
    (h : frameBase.getLast? ≠ some .callFrameCfa) :
    top frameBase none cfa = top frameBase none cfa' := by
  unfold top
  cases hlast : frameBase.getLast? with
  | none => rfl
  | some op =>
      cases op with
      | lit n => rfl
      | addr address => rfl
      | fbreg offset => rfl
      | callFrameCfa => exact absurd hlast h

/-- Two CFAs give a location the same value when they are the same, or
when its last operation does not follow the CFA. -/
theorem location_eq_iff {ops frameBase : List Op}
    (cfa cfa' : BitVec 32) :
    location ops frameBase cfa = location ops frameBase cfa'
      ↔ cfa = cfa' ∨ ¬ EndsInCfa ops frameBase := by
  unfold location EndsInCfa
  cases hlast : ops.getLast? with
  | none => simp [top, hlast]
  | some op =>
      simp only [top, hlast, Option.bind_some, Option.some.injEq,
        exists_eq_left']
      cases op with
      | lit n => simp [Op.value, Op.IsCfa]
      | addr address => simp [Op.value, Op.IsCfa]
      | callFrameCfa => simp [Op.value, Op.IsCfa]
      | fbreg offset =>
          show Option.map _ (top frameBase none cfa)
            = Option.map _ (top frameBase none cfa') ↔ _
          by_cases hcfa : frameBase.getLast? = some .callFrameCfa
          · simp [top, hcfa, Op.value, Op.IsCfa]
          · have hsame := top_eq_of_not_cfa cfa cfa' hcfa
            simp [hsame, Op.IsCfa, hcfa]

end LocationExpr
