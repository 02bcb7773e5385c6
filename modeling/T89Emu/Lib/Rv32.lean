/-
Encodings of RV32I with the Zicsr extension and the three privileged
words of a machine-mode core (ECALL, EBREAK, MRET), as the instruction
set defines them.

The definitions are about 32-bit words only: which of them are
instructions (`Valid`), which immediates they spell, and what an
instruction makes of its operands. An implementation is compared with
them; nothing here is taken from one.
-/
import Mathlib.Algebra.Group.Int.Defs
import Mathlib.Algebra.Group.Nat.Defs

namespace Rv32

section Fields

variable (w : BitVec 32)

def opcode : BitVec 7 := w.extractLsb' 0 7
def funct3 : BitVec 3 := w.extractLsb' 12 3
def funct7 : BitVec 7 := w.extractLsb' 25 7

end Fields

-- ====================================================== major opcodes

def LUI : BitVec 7 := 0b0110111
def AUIPC : BitVec 7 := 0b0010111
def JAL : BitVec 7 := 0b1101111
def JALR : BitVec 7 := 0b1100111
def BRANCH : BitVec 7 := 0b1100011
def LOAD : BitVec 7 := 0b0000011
def STORE : BitVec 7 := 0b0100011
def OP_IMM : BitVec 7 := 0b0010011
def OP : BitVec 7 := 0b0110011
def MISC_MEM : BitVec 7 := 0b0001111
def SYSTEM : BitVec 7 := 0b1110011

-- ====================================================== privileged words

def ECALL : BitVec 32 := 0x00000073
def EBREAK : BitVec 32 := 0x00100073
def MRET : BitVec 32 := 0x30200073

-- ============================================================ validity

variable (w : BitVec 32)

/-- FENCE; its operand fields are free. -/
def IsFence : Prop := opcode w = MISC_MEM ∧ funct3 w = 0

/-- CSRRWI, CSRRSI and CSRRCI. -/
def IsCsrImmediate : Prop :=
  opcode w = SYSTEM ∧ (funct3 w = 5 ∨ funct3 w = 6 ∨ funct3 w = 7)

/-- CSRRW, CSRRS and CSRRC. -/
def IsCsrRegister : Prop :=
  opcode w = SYSTEM ∧ (funct3 w = 1 ∨ funct3 w = 2 ∨ funct3 w = 3)

/-- The word is an instruction. -/
def Valid : Prop :=
  opcode w = LUI ∨ opcode w = AUIPC ∨ opcode w = JAL
    ∨ opcode w = JALR ∧ funct3 w = 0
    ∨ opcode w = BRANCH ∧ funct3 w ≠ 2 ∧ funct3 w ≠ 3
    ∨ opcode w = LOAD ∧ funct3 w ≠ 3 ∧ funct3 w ≠ 6 ∧ funct3 w ≠ 7
    ∨ opcode w = STORE ∧ (funct3 w = 0 ∨ funct3 w = 1 ∨ funct3 w = 2)
    ∨ opcode w = OP_IMM ∧ (funct3 w = 1 → funct7 w = 0)
      ∧ (funct3 w = 5 → funct7 w = 0 ∨ funct7 w = 0b0100000)
    ∨ opcode w = OP ∧ (funct7 w = 0
      ∨ funct7 w = 0b0100000 ∧ (funct3 w = 0 ∨ funct3 w = 5))
    ∨ IsFence w ∨ IsCsrRegister w ∨ IsCsrImmediate w
    ∨ w = ECALL ∨ w = EBREAK ∨ w = MRET

instance : Decidable (IsFence w) := inferInstanceAs (Decidable (_ ∧ _))

instance : Decidable (IsCsrImmediate w) :=
  inferInstanceAs (Decidable (_ ∧ _))

instance : Decidable (IsCsrRegister w) :=
  inferInstanceAs (Decidable (_ ∧ _))

instance : Decidable (Valid w) := inferInstanceAs (Decidable (_ ∨ _))

-- ============================================================ operands

/-- The 20 offset bits of JAL, in the order of their weight. -/
def jField : BitVec 20 :=
  w.extractLsb' 31 1 ++ w.extractLsb' 12 8 ++ w.extractLsb' 20 1
    ++ w.extractLsb' 21 10

/-- The offset of JAL: a signed multiple of two bytes. -/
def jImmediate : BitVec 32 := (jField w).signExtend 32 <<< 1

/-- The immediate of JALR and of the loads: 12 bits, signed. -/
def iImmediate : BitVec 32 := (w.extractLsb' 20 12).signExtend 32

/-- The immediate operand of the CSR immediate instructions. -/
def uimm : BitVec 32 := (w.extractLsb' 15 5).setWidth 32

/-- What a CSR immediate instruction makes of the old value. Setting or
clearing no bits, CSRRSI and CSRRCI leave it as it is. -/
def csrImmediateUpdate (old : BitVec 32) : BitVec 32 :=
  if funct3 w = 5 then uimm w
  else if funct3 w = 6 then old ||| uimm w
  else old &&& ~~~ uimm w

-- ============================================================= results

/-- SLL, SRL and SRA. -/
def IsShift : Prop :=
  opcode w = OP ∧ (funct3 w = 1 ∧ funct7 w = 0
    ∨ funct3 w = 5 ∧ (funct7 w = 0 ∨ funct7 w = 0b0100000))

instance : Decidable (IsShift w) := inferInstanceAs (Decidable (_ ∧ _))

/-- What a register shift makes of `a`: the low five bits of `b` are the
count, and the arithmetic shift is the division of the signed number,
rounded down. -/
def shiftResult (a b : BitVec 32) : BitVec 32 :=
  let count := b.toNat % 32
  if funct3 w = 1 then a <<< count
  else if funct7 w = 0 then a >>> count
  else BitVec.ofInt 32 (a.toInt / 2 ^ count)

/-- LB, LH, LW, LBU and LHU. -/
def IsLoad : Prop :=
  opcode w = LOAD ∧ (funct3 w = 0 ∨ funct3 w = 1 ∨ funct3 w = 2
    ∨ funct3 w = 4 ∨ funct3 w = 5)

instance : Decidable (IsLoad w) := inferInstanceAs (Decidable (_ ∧ _))

/-- The bytes a load takes: 1, 2 or 4, by the low bits of `funct3`. -/
def loadSize : Nat := 2 ^ (w.extractLsb' 12 2).toNat

/-- The top bit of `funct3` tells LBU and LHU from LB, LH and LW. -/
def loadUnsigned : Bool := w.getLsbD 14

/-- What a load makes of the bytes it finds. -/
def loadResult {n : Nat} (v : BitVec n) : BitVec 32 :=
  if loadUnsigned w then v.setWidth 32 else v.signExtend 32

/-- The bit that fills the result above the bytes a load finds. -/
def loadSign {n : Nat} (v : BitVec n) : Bool := !loadUnsigned w && v.msb

/-- What CSRRW, CSRRS and CSRRC make of the old value and that of
`rs1`. -/
def csrUpdate (old x : BitVec 32) : BitVec 32 :=
  if funct3 w = 1 then x
  else if funct3 w = 2 then old ||| x
  else old &&& ~~~ x

/-- JAL and JALR. -/
def IsJump : Prop := opcode w = JAL ∨ opcode w = JALR

instance : Decidable (IsJump w) := inferInstanceAs (Decidable (_ ∨ _))

/-- The sum that a jump at `pc` forms, `x` being the value of `rs1`. -/
def jumpSum (pc x : BitVec 32) : BitVec 32 :=
  if opcode w = JAL then pc + jImmediate w else x + iImmediate w

/-- Where it goes. JALR clears the low bit of the sum. -/
def jumpTarget (pc x : BitVec 32) : BitVec 32 :=
  if opcode w = JAL then jumpSum w pc x else jumpSum w pc x &&& ~~~ 1#32

end Rv32
