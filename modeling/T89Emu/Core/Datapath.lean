/-
The datapath units of the core: register file, ALU with its control
unit, memory control unit, immediate generator and next-pc unit
(RegisterFile.cpp, Alu.cpp, AluControlUnit.cpp, MemControlUnit.cpp,
ImmediateGenerator.cpp, NextPc.cpp).

# Fields

The instruction fields are the bit slices of the word, typed by their
width: `rd`, `rs1` and `rs2` index the 32 registers and cannot miss,
`funct3` and `funct7` are matched against their literals. Immediates
and CSR addresses are 32-bit values, assembled with the source's own
shifts and masks.

# Register 0

`RegisterFile.write` stores 0 when asked to write register 0. That
register 0 holds 0 is the field `zero` of the type: the constructor
establishes it and `write` is the only way to change a register.
-/
import T89Emu.Architecture
import T89Emu.Lib.Eval

namespace T89Emu

open Cpp

-- ================================================== instruction fields

section Fields

variable (instruction : U32)

def funct3 : BitVec 3 := instruction.extractLsb' 12 3
def funct7 : BitVec 7 := instruction.extractLsb' 25 7
def rs1 : BitVec 5 := instruction.extractLsb' 15 5
def rs2 : BitVec 5 := instruction.extractLsb' 20 5
def rd : BitVec 5 := instruction.extractLsb' 7 5
def csrAddr : U32 := (instruction >>> 20) &&& 0xfff

end Fields

-- ======================================================= register file

/-- The 32 registers, register 0 being 0. -/
structure RegisterFile where
  registers : BitVec 5 → U32
  zero : registers 0#5 = 0#32

namespace RegisterFile

/-- `RegisterFile::RegisterFile`. -/
def reset : RegisterFile := ⟨fun _ => 0, rfl⟩

variable (rf : RegisterFile)

def read (reg : BitVec 5) : U32 := rf.registers reg

/-- `RegisterFile::write`: register 0 is overwritten with 0. -/
def write (data : U32) (reg : BitVec 5) : RegisterFile where
  registers r :=
    if r = reg then (if reg ≠ 0#5 then data else 0#32)
    else rf.registers r
  zero := by
    by_cases h : 0#5 = reg
    · rw [if_pos h, if_neg (by simp [← h])]
    · rw [if_neg h, rf.zero]

@[simp] theorem read_zero : rf.read 0#5 = 0#32 := rf.zero

/-- Two register files that read alike everywhere are equal. -/
theorem ext_read {rf rf' : RegisterFile} (h : ∀ r, rf.read r = rf'.read r) :
    rf = rf' := by
  cases rf
  cases rf'
  congr
  exact funext h

/-- A register other than 0 reads as it was written. -/
theorem read_write_self {reg : BitVec 5} (h : reg ≠ 0#5) (data : U32) :
    (rf.write data reg).read reg = data := by
  show (if reg = reg then (if reg ≠ 0#5 then data else 0#32) else _) = data
  rw [if_pos rfl, if_pos h]

/-- The others read as they were. -/
theorem read_write_of_ne {r reg : BitVec 5} (h : r ≠ reg) (data : U32) :
    (rf.write data reg).read r = rf.read r := if_neg h

/-- Writing register 0 changes nothing. -/
@[simp] theorem write_zero (data : U32) : rf.write data 0#5 = rf := by
  refine ext_read fun r => ?_
  by_cases h : r = 0#5
  · rw [h, read_zero, read_zero]
  · exact rf.read_write_of_ne h data

/-- A write changes nothing exactly when it names register 0 or stores
what is there already. -/
theorem write_eq_self_iff (data : U32) (reg : BitVec 5) :
    rf.write data reg = rf ↔ reg = 0#5 ∨ rf.read reg = data := by
  by_cases hreg : reg = 0#5
  · subst hreg
    simp
  · rw [or_iff_right hreg]
    constructor
    · intro h
      rw [← h, rf.read_write_self hreg]
    · intro h
      refine ext_read fun r => ?_
      by_cases hr : r = reg
      · rw [hr, rf.read_write_self hreg, h]
      · exact rf.read_write_of_ne hr data

end RegisterFile

-- ================================================================= ALU

/-- The ALU operation codes (Alu.h), with `invalid` for the filler
`0xeeee` of the control unit's tables. -/
inductive AluOp
  | ADD | SUB | OR | AND | XOR | SRL | SRA | SLL | SLT | SLTU
  | invalid
  deriving DecidableEq, Repr

/-- `A << B` and `A >> B` of C++: defined for counts below the width. -/
def shiftBy (shift : U32 → Nat → U32) (A B : U32) : Eval U32 :=
  if B.toNat < 32 then .ok (shift A B.toNat) else .error .shiftCount

/-- `Alu::execute`. -/
def Alu.execute (A B : U32) (aluOp : AluOp) : Eval U32 :=
  match aluOp with
  | .ADD => .ok (A + B)
  | .SUB => .ok (A - B)
  | .OR => .ok (A ||| B)
  | .AND => .ok (A &&& B)
  | .XOR => .ok (A ^^^ B)
  | .SRL => shiftBy (· >>> ·) A B
  | .SRA => do
      let msb := -(A >>> 31)
      let shifted ← shiftBy (· >>> ·) (msb ^^^ A) B
      .ok (shifted ^^^ msb)
  | .SLL => shiftBy (· <<< ·) A B
  | .SLT =>
      let msb := (A - B) >>> 31
      .ok (if msb = 1 then 1 else 0)
  | .SLTU => .ok (if A < B then 1 else 0)
  | .invalid => .ok 0

/-- The control unit's table of I-type operations, by `funct3`. -/
def AluControlUnit.iOperations (funct3 : BitVec 3) : AluOp :=
  match funct3 with
  | 0 => .ADD
  | 1 => .SLL
  | 2 => .SLT
  | 3 => .SLTU
  | 4 => .XOR
  | 5 => .invalid
  | 6 => .OR
  | 7 => .AND

/-- The control unit's table of R-type operations, by `funct3`. -/
def AluControlUnit.rOperations (funct3 : BitVec 3) : AluOp :=
  match funct3 with
  | 0 => .invalid
  | 1 => .SLL
  | 2 => .SLT
  | 3 => .SLTU
  | 4 => .XOR
  | 5 => .invalid
  | 6 => .OR
  | 7 => .AND

/-- `AluControlUnit::getAluOperation`. -/
def AluControlUnit.getAluOperation (opcode : Opcode) (funct7 : BitVec 7)
    (funct3 : BitVec 3) : AluOp :=
  match opcode with
  | .ITYPE =>
      match funct3 with
      | 5 => if funct7 = 0b0000000#7 then .SRL else .SRA
      | _ => iOperations funct3
  | .RTYPE =>
      match funct3 with
      | 0 => if funct7 = 0b0000000#7 then .ADD else .SUB
      | 5 => if funct7 = 0b0000000#7 then .SRL else .SRA
      | _ => rOperations funct3
  | .BTYPE => .SUB
  | _ => .ADD

/-- `MemControlUnit::getMemSize`: 0 for the widths that do not exist. -/
def MemControlUnit.getMemSize (funct3 : BitVec 3) : Nat :=
  match funct3 with
  | 0b000 => BYTE
  | 0b100 => BYTE
  | 0b001 => HALFWORD
  | 0b101 => HALFWORD
  | 0b010 => WORD
  | _ => 0

-- ================================================= immediate generator

/-- `ImmediateGenerator::getImmediate`. -/
def ImmediateGenerator.getImmediate (instruction : U32) : U32 :=
  match opcodeOf instruction with
  | .LUI => instruction &&& 0xfffff000
  | .AUIPC => instruction &&& 0xfffff000
  | .JAL =>
      let immediate :=
        ((instruction >>> 12) &&& 0x00080000) |||  -- imm[20]
        ((instruction >>> 1) &&& 0x0007f800) |||   -- imm[19:12]
        ((instruction >>> 10) &&& 0x00000400) |||  -- imm[11]
        ((instruction >>> 21) &&& 0x000003ff)      -- imm[10:1]
      let immediate :=
        if (immediate >>> 19) &&& 0b1 = 1 then immediate ||| 0xfff00000
        else immediate
      immediate <<< 1
  | .JALR =>
      let immediate := (instruction >>> 20) &&& 0xfff
      if (immediate >>> 11) &&& 0b1 = 1 then immediate ||| 0xfffff000
      else immediate
  | .BTYPE =>
      let immediate :=
        ((instruction >>> 20) &&& 0x0000800) |||   -- imm[12]
        ((instruction <<< 3) &&& 0x0000400) |||    -- imm[11]
        ((instruction >>> 21) &&& 0x00003f0) |||   -- imm[10:5]
        ((instruction >>> 8) &&& 0x000000f)        -- imm[4:1]
      let immediate :=
        if (immediate >>> 11) &&& 0x1 = 1 then immediate ||| 0xfffff000
        else immediate
      immediate <<< 1
  | .LOAD =>
      let immediate := instruction >>> 20
      if instruction >>> 31 ≠ 0 then immediate ||| 0xfffff000
      else immediate
  | .STORE =>
      let immediate :=
        ((instruction >>> 20) &&& (0b1111111 <<< 5)) +
        ((instruction >>> 7) &&& 0b11111)
      if instruction >>> 31 ≠ 0 then immediate ||| 0xfffff000
      else immediate
  | .ITYPE =>
      let immediate := instruction >>> 20
      let immediate :=
        if instruction >>> 31 ≠ 0 then immediate ||| 0xfffff000
        else immediate
      if funct3 instruction = 0b001 ∨ funct3 instruction = 0b101 then
        immediate &&& 0b11111
      else immediate
  | .PRIV => (instruction >>> 20) &&& 0xfff
  | _ => 0

-- ======================================================== next-pc unit

/-- `NextPc::branchAlu`, as a truth value. -/
def NextPc.branchAlu (A B : U32) (funct3 : BitVec 3) : Bool :=
  let aluOut := A - B
  match funct3 with
  | 0b000 => aluOut == 0
  | 0b001 => aluOut != 0
  | 0b100 => aluOut >>> 31 == 1
  | 0b101 => aluOut >>> 31 == 0
  | 0b110 => decide (A < B)
  | 0b111 => decide (A ≥ B)
  | _ => false

/-- The assignment to the unit's register in
`NextPc::calculateNextPc`. -/
def NextPc.update (nextPc offset : U32) (opcode : Opcode)
    (funct3 : BitVec 3) (A B mepc : U32) : U32 :=
  match opcode with
  | .JAL => nextPc + offset
  | .JALR => A + offset
  | .BTYPE => nextPc + (if branchAlu A B funct3 then offset else 4)
  | .PRIV =>
      if funct3 = 0#3 ∧ offset = MRET_IMM then mepc else nextPc + 4
  | _ => nextPc + 4

/-- `NextPc::calculateNextPc`: the status, and the unit's register, which
is assigned before its alignment is looked at. -/
def NextPc.calculateNextPc (nextPc offset : U32) (opcode : Opcode)
    (funct3 : BitVec 3) (A B mepc : U32) : U32 × U32 :=
  let nextPc := update nextPc offset opcode funct3 A B mepc
  if nextPc.toNat % 4 ≠ 0 then (INSTRUCTION_ADDRESS_MISALIGNED, nextPc)
  else (STATUS_OK, nextPc)

end T89Emu
