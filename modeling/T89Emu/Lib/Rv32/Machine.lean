/-
The base integer instructions of RV32I as a machine: what each of them
does to the program counter, the registers and the memory, and how it
is encoded. FENCE, which orders what this machine does in order anyway,
and ECALL and EBREAK, which are requests to an environment, are not
among them.

A `Machine` has no devices and takes no traps: memory answers at every
address, and an instruction that would raise an exception (a jump to a
misaligned address) is for whoever runs the machine to exclude. Signed
operands are compared and shifted as integers, counts are taken modulo
32, and a load extends the bytes it finds.

`Runs P n m m'` is a run of `n` instructions of which each satisfies
`P` in the state that it meets.
-/
import Mathlib.Logic.Function.Basic
import T89Emu.Lib.Bytes
import T89Emu.Lib.Rv32.Format

namespace Rv32

open Bytes

-- ============================================================ the state

/-- The state. What `regs` says of register 0 is never looked at. -/
structure Machine where
  pc : BitVec 32
  regs : BitVec 5 → BitVec 32
  mem : BitVec 32 → BitVec 8

namespace Machine

variable (m : Machine)

/-- A register; `x0` reads 0. -/
def x (r : BitVec 5) : BitVec 32 := if r = 0#5 then 0#32 else m.regs r

def setX (r : BitVec 5) (v : BitVec 32) : Machine :=
  { m with regs := Function.update m.regs r v }

def goTo (a : BitVec 32) : Machine := { m with pc := a }

def next : Machine := m.goTo (m.pc + 4)

/-- The `n` bytes from an address on, the first one lowest. -/
def load (a : BitVec 32) (n : Nat) : BitVec (8 * n) :=
  join n fun i => m.mem (a + BitVec.ofNat 32 i)

/-- The `n` low bytes of a value, stored from an address on. -/
def store (a : BitVec 32) (n : Nat) (v : BitVec 32) : Machine :=
  { m with mem := fun b =>
      if (b - a).toNat < n then byteOf v (b - a).toNat else m.mem b }

theorem byteOf_load (a : BitVec 32) {n j : Nat} (hj : j < n) :
    byteOf (m.load a n) j = m.mem (a + BitVec.ofNat 32 j) :=
  byteOf_join _ hj

@[simp] theorem x_zero : m.x 0#5 = 0#32 := if_pos rfl

theorem x_setX (r r' : BitVec 5) (v : BitVec 32) :
    (m.setX r v).x r'
      = if r' = r ∧ r' ≠ 0#5 then v else m.x r' := by
  unfold x setX
  by_cases h0 : r' = 0#5
  · rw [if_pos h0, if_neg fun h => h.2 h0, if_pos h0]
  · rw [if_neg h0, if_neg h0]
    by_cases hr : r' = r
    · subst hr
      rw [if_pos ⟨rfl, h0⟩]
      exact Function.update_self ..
    · rw [if_neg fun h => hr h.1]
      exact Function.update_of_ne hr ..

@[simp] theorem pc_setX (r : BitVec 5) (v : BitVec 32) :
    (m.setX r v).pc = m.pc := rfl

@[simp] theorem mem_setX (r : BitVec 5) (v : BitVec 32) :
    (m.setX r v).mem = m.mem := rfl

@[simp] theorem pc_goTo (a : BitVec 32) : (m.goTo a).pc = a := rfl

@[simp] theorem x_goTo (a : BitVec 32) (r : BitVec 5) :
    (m.goTo a).x r = m.x r := rfl

@[simp] theorem mem_goTo (a : BitVec 32) : (m.goTo a).mem = m.mem := rfl

@[simp] theorem pc_store (a : BitVec 32) (n : Nat) (v : BitVec 32) :
    (m.store a n v).pc = m.pc := rfl

@[simp] theorem x_store (a : BitVec 32) (n : Nat) (v : BitVec 32)
    (r : BitVec 5) : (m.store a n v).x r = m.x r := rfl

theorem mem_store (a b : BitVec 32) (n : Nat) (v : BitVec 32) :
    (m.store a n v).mem b
      = if (b - a).toNat < n then byteOf v (b - a).toNat else m.mem b :=
  rfl

end Machine

-- ======================================================== the mnemonics

/-- The condition of a branch. -/
inductive Condition
  | eq | ne | lt | ge | ltu | geu
  deriving DecidableEq, Repr

/-- The operations on two registers. -/
inductive RegOp
  | add | sub | sll | slt | sltu | xor | srl | sra | or | and
  deriving DecidableEq, Repr

/-- The operations on a register and a 12-bit immediate. -/
inductive ImmOp
  | addi | slti | sltiu | xori | ori | andi
  deriving DecidableEq, Repr

/-- The shifts by a constant. -/
inductive ShiftOp
  | slli | srli | srai
  deriving DecidableEq, Repr

inductive LoadOp
  | lb | lh | lw | lbu | lhu
  deriving DecidableEq, Repr

inductive StoreOp
  | sb | sh | sw
  deriving DecidableEq, Repr

def Condition.holds (a b : BitVec 32) : Condition → Bool
  | eq => a == b
  | ne => a != b
  | lt => decide (a.toInt < b.toInt)
  | ge => decide (b.toInt ≤ a.toInt)
  | ltu => decide (a.toNat < b.toNat)
  | geu => decide (b.toNat ≤ a.toNat)

/-- Signed operands are compared. -/
def Condition.IsSigned (c : Condition) : Prop := c = lt ∨ c = ge

instance (c : Condition) : Decidable c.IsSigned :=
  inferInstanceAs (Decidable (_ ∨ _))

def RegOp.eval (a b : BitVec 32) : RegOp → BitVec 32
  | add => a + b
  | sub => a - b
  | sll => a <<< (b.toNat % 32)
  | slt => if a.toInt < b.toInt then 1 else 0
  | sltu => if a.toNat < b.toNat then 1 else 0
  | xor => a ^^^ b
  | srl => a >>> (b.toNat % 32)
  | sra => BitVec.ofInt 32 (a.toInt / 2 ^ (b.toNat % 32))
  | or => a ||| b
  | and => a &&& b

/-- The same operation with registers for operands. -/
def ImmOp.op : ImmOp → RegOp
  | addi => .add
  | slti => .slt
  | sltiu => .sltu
  | xori => .xor
  | ori => .or
  | andi => .and

def ShiftOp.op : ShiftOp → RegOp
  | slli => .sll
  | srli => .srl
  | srai => .sra

def RegOp.IsShift (o : RegOp) : Prop := o = sll ∨ o = srl ∨ o = sra

instance (o : RegOp) : Decidable o.IsShift :=
  inferInstanceAs (Decidable (_ ∨ _))

def LoadOp.size : LoadOp → Nat
  | lb => 1
  | lh => 2
  | lw => 4
  | lbu => 1
  | lhu => 2

def LoadOp.signed : LoadOp → Bool
  | lb => true
  | lh => true
  | lw => true
  | lbu => false
  | lhu => false

/-- What a load makes of the bytes it finds. -/
def LoadOp.extend (l : LoadOp) {n : Nat} (v : BitVec n) : BitVec 32 :=
  if l.signed then v.signExtend 32 else v.setWidth 32

/-- The bit that fills the result above them. -/
def LoadOp.fill (l : LoadOp) {n : Nat} (v : BitVec n) : Bool :=
  l.signed && v.msb

/-- The bytes of the result: those found, then the fill. -/
theorem LoadOp.byteOf_extend (l : LoadOp) {n k : Nat} (v : BitVec (8 * n))
    (hk : k < 4) :
    byteOf (l.extend v) k
      = if k < n then byteOf v k else BitVec.fill 8 (l.fill v) := by
  unfold extend fill
  cases l.signed with
  | true =>
      rw [if_pos rfl, Bool.true_and]
      split
      · exact byteOf_signExtend (w := 4) v hk (by omega)
      · exact byteOf_signExtend_of_le (w := 4) v hk (by omega)
  | false =>
      rw [if_neg (by decide), Bool.false_and]
      refine (byteOf_setWidth (w := 4) v hk).trans ?_
      split
      · rfl
      · exact byteOf_of_le v (by omega)

def StoreOp.size : StoreOp → Nat
  | sb => 1
  | sh => 2
  | sw => 4

-- ===================================================== the instructions

/-- One of the 37 instructions, its immediate as the word holds it: the
upper 20 bits of a value, and the offset of a jump or branch in
halfwords. -/
inductive Instruction
  | lui (rd : BitVec 5) (imm : BitVec 20)
  | auipc (rd : BitVec 5) (imm : BitVec 20)
  | jal (rd : BitVec 5) (offset : BitVec 20)
  | jalr (rd rs1 : BitVec 5) (offset : BitVec 12)
  | branch (c : Condition) (rs1 rs2 : BitVec 5) (offset : BitVec 12)
  | load (l : LoadOp) (rd rs1 : BitVec 5) (offset : BitVec 12)
  | store (o : StoreOp) (rs2 rs1 : BitVec 5) (offset : BitVec 12)
  | immediate (o : ImmOp) (rd rs1 : BitVec 5) (imm : BitVec 12)
  | shift (o : ShiftOp) (rd rs1 amount : BitVec 5)
  | register (o : RegOp) (rd rs1 rs2 : BitVec 5)
  deriving DecidableEq, Repr

/-- The upper 20 bits of a value, in place. -/
def upper (imm : BitVec 20) : BitVec 32 := imm ++ 0#12

/-- An offset of halfwords, in bytes and signed. -/
def halfwords {n : Nat} (offset : BitVec n) : BitVec 32 :=
  (offset ++ 0#1).signExtend 32

/-- It is even. -/
theorem getLsbD_append_one {n : Nat} (offset : BitVec n) :
    (offset ++ 0#1).getLsbD 0 = false := by
  rw [BitVec.getLsbD_append]
  simp

namespace Instruction

/-- What an instruction does. -/
def exec (m : Machine) : Instruction → Machine
  | lui rd imm => (m.setX rd (upper imm)).next
  | auipc rd imm => (m.setX rd (m.pc + upper imm)).next
  | jal rd offset =>
      (m.setX rd (m.pc + 4)).goTo (m.pc + halfwords offset)
  | jalr rd rs1 offset =>
      (m.setX rd (m.pc + 4)).goTo
        ((m.x rs1 + offset.signExtend 32) &&& ~~~ 1#32)
  | branch c rs1 rs2 offset =>
      if c.holds (m.x rs1) (m.x rs2) then m.goTo (m.pc + halfwords offset)
      else m.next
  | load l rd rs1 offset =>
      (m.setX rd (l.extend
        (m.load (m.x rs1 + offset.signExtend 32) l.size))).next
  | store o rs2 rs1 offset =>
      (m.store (m.x rs1 + offset.signExtend 32) o.size (m.x rs2)).next
  | immediate o rd rs1 imm =>
      (m.setX rd (o.op.eval (m.x rs1) (imm.signExtend 32))).next
  | shift o rd rs1 amount =>
      (m.setX rd (o.op.eval (m.x rs1) (amount.setWidth 32))).next
  | register o rd rs1 rs2 =>
      (m.setX rd (o.eval (m.x rs1) (m.x rs2))).next

end Instruction

-- ========================================================= the encoding

def Condition.funct3 : Condition → BitVec 3
  | eq => 0
  | ne => 1
  | lt => 4
  | ge => 5
  | ltu => 6
  | geu => 7

def LoadOp.funct3 : LoadOp → BitVec 3
  | lb => 0
  | lh => 1
  | lw => 2
  | lbu => 4
  | lhu => 5

def StoreOp.funct3 : StoreOp → BitVec 3
  | sb => 0
  | sh => 1
  | sw => 2

def RegOp.funct3 : RegOp → BitVec 3
  | add => 0
  | sub => 0
  | sll => 1
  | slt => 2
  | sltu => 3
  | xor => 4
  | srl => 5
  | sra => 5
  | or => 6
  | and => 7

def RegOp.funct7 : RegOp → BitVec 7
  | sub => 0b0100000
  | sra => 0b0100000
  | _ => 0

/-- The word of an instruction. -/
def Instruction.encode : Instruction → BitVec 32
  | lui rd imm => uWord rd LUI (upper imm)
  | auipc rd imm => uWord rd AUIPC (upper imm)
  | jal rd offset => jWord rd JAL (offset ++ 0#1)
  | jalr rd rs1 offset => iWord 0 rs1 rd JALR offset
  | branch c rs1 rs2 offset => bWord c.funct3 rs2 rs1 BRANCH (offset ++ 0#1)
  | load l rd rs1 offset => iWord l.funct3 rs1 rd LOAD offset
  | store o rs2 rs1 offset => sWord o.funct3 rs2 rs1 STORE offset
  | immediate o rd rs1 imm => iWord o.op.funct3 rs1 rd OP_IMM imm
  | shift o rd rs1 amount =>
      shiftWord o.op.funct7 o.op.funct3 rs1 rd OP_IMM amount
  | register o rd rs1 rs2 => rWord o.funct7 o.funct3 rs2 rs1 rd OP

-- =============================================================== the runs

/-- The instruction that the machine is about to execute. -/
def Machine.Fetches (m : Machine) (i : Instruction) : Prop :=
  m.load m.pc 4 = i.encode

instance (m : Machine) (i : Instruction) : Decidable (m.Fetches i) :=
  inferInstanceAs (Decidable (_ = _))

/-- A run of `n` instructions, each of which satisfies `P` where it is
executed. -/
inductive Runs (P : Machine → Instruction → Prop) :
    Nat → Machine → Machine → Prop
  | done (m : Machine) : Runs P 0 m m
  | step {n : Nat} {m m' : Machine} {i : Instruction}
      (hfetch : m.Fetches i) (hP : P m i)
      (hrest : Runs P n (i.exec m) m') : Runs P (n + 1) m m'

end Rv32
