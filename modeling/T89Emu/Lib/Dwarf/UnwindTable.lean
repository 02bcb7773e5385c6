/-
The unwind table as the DWARF standard defines it: a row for the first
location and one more for each advance, and in each row a rule for every
register.

A frame entry's table is that of its common entry's instructions carried
on by its own. What a register is restored to is the rule that the common
entry's instructions gave it, so they are the `initial` rules of the
second part (`unwindTable`); in the first part there are none.
-/
import Mathlib.Logic.Function.Basic
import T89Emu.Lib.Dwarf.CallFrame

namespace CallFrame

/-- Where a register was saved: nowhere, or at a distance from the CFA. -/
inductive Rule
  | undefined
  | offset (distance : Int)
  deriving DecidableEq, Repr

/-- The rules of a row. -/
abbrev Rules := BitVec 6 → Rule

def Rules.undefined : Rules := fun _ => .undefined

structure UnwindRow where
  location : Nat
  rules : Rules

/-- The rows before the last one, and the last one. -/
structure UnwindTable where
  rows : List UnwindRow
  back : UnwindRow

/-- What the instructions are carried out with. -/
structure Factors where
  code : Nat
  data : Int

namespace UnwindTable

def all (t : UnwindTable) : List UnwindRow := t.rows ++ [t.back]

/-- A copy of the last row, that begins further on. -/
def advance (t : UnwindTable) (distance : Nat) : UnwindTable :=
  ⟨t.rows ++ [t.back],
    { t.back with location := t.back.location + distance }⟩

def setRule (t : UnwindTable) (register : BitVec 6) (rule : Rule) :
    UnwindTable :=
  { t with back :=
    { t.back with rules := Function.update t.back.rules register rule } }

/-- What an instruction makes of the table. -/
def exec (factors : Factors) (initial : Rules) (t : UnwindTable) :
    Instr → UnwindTable
  | .advanceLoc delta => t.advance (delta.toNat * factors.code)
  | .advanceLoc1 delta => t.advance (delta.toNat * factors.code)
  | .offset register factored =>
      t.setRule register (.offset (factored.unsigned * factors.data))
  | .restore register => t.setRule register (initial register)
  | .nop | .defCfa _ _ | .defCfaRegister _ | .defCfaOffset _ => t

/-- And a list of instructions. -/
def execAll (factors : Factors) (initial : Rules) (t : UnwindTable)
    (program : List Instr) : UnwindTable :=
  program.foldl (exec factors initial) t

/-- The table of one row without rules. -/
def first (location : Nat) : UnwindTable :=
  ⟨[], ⟨location, Rules.undefined⟩⟩

end UnwindTable

/-- The table of a frame entry that begins at the location: the common
entry's instructions, and its own. -/
def unwindTable (factors : Factors) (location : Nat)
    (cieProgram fdeProgram : List Instr) : UnwindTable :=
  let t := (UnwindTable.first location).execAll factors Rules.undefined
    cieProgram
  t.execAll factors t.back.rules fdeProgram

/-- The instruction begins a row. -/
def Instr.isAdvance : Instr → Bool
  | advanceLoc _ | advanceLoc1 _ => true
  | _ => false

theorem UnwindTable.length_execAll (factors : Factors) (initial : Rules)
    (t : UnwindTable) (program : List Instr) :
    (t.execAll factors initial program).all.length
      = t.all.length + program.countP (·.isAdvance) := by
  induction program generalizing t with
  | nil => rfl
  | cons i program ih =>
      have hstep : (t.exec factors initial i).all.length
          = t.all.length + if i.isAdvance then 1 else 0 := by
        cases i <;> simp [exec, advance, setRule, all, Instr.isAdvance]
      have hrun := ih (t.exec factors initial i)
      rw [List.countP_cons]
      show ((t.exec factors initial i).execAll factors initial
        program).all.length = _
      omega

/-- The table has one row more than there are advances. -/
theorem length_unwindTable (factors : Factors) (location : Nat)
    (cieProgram fdeProgram : List Instr) :
    (unwindTable factors location cieProgram fdeProgram).all.length
      = 1 + (cieProgram ++ fdeProgram).countP (·.isAdvance) := by
  rw [unwindTable, UnwindTable.length_execAll, UnwindTable.length_execAll,
    List.countP_append, Nat.add_assoc]
  rfl

end CallFrame
