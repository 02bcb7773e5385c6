/-
The disassembler (`generateInstructionStr` and `getCsrName` of
ElfParser.cpp).

The text of an instruction is printed into a local buffer by one
`sprintf` per instruction format, most of them `%-8s` for the name and
operands with commas in between: a `Text.row`. Two things can keep a
text from being printed: the `at` of a table of names throws, and a path
through the `switch` statements reaches none of the `sprintf`s, so that
the buffer is returned as it is.
-/
import T89Emu.Core.Datapath
import T89Emu.Lib.Text

namespace T89Emu

open Text

/-- The fields of a `DisassembledEntry` that the text is made of. -/
structure DisassembledEntry where
  address : U32
  instruction : U32

namespace ElfParser

/-- What can come in the way of a text. -/
inductive Unprinted
  | outOfRange -- thrown by `std::vector::at`
  | unwritten -- the buffer was never printed to
  deriving DecidableEq, Repr

-- ========================================================== the tables

def registerNames : Vector String 32 :=
  #v["zero", "ra", "sp", "gp", "tp", "t0", "t1", "t2", "s0", "s1", "a0",
    "a1", "a2", "a3", "a4", "a5", "a6", "a7", "s2", "s3", "s4", "s5",
    "s6", "s7", "s8", "s9", "s10", "s11", "t3", "t4", "t5", "t6"]

def branchInstructions : List String :=
  ["beq", "bne", "nan", "nan", "blt", "bge", "bltu", "bgeu"]

def loadInstructions : List String := ["lb", "lh", "lw", "nan", "lbu", "lhu"]

def storeInstructions : List String := ["sb", "sh", "sw"]

def iInstructions : List String :=
  ["addi", "slli", "slti", "sltiu", "xori", "nan", "ori", "andi"]

def rInstructions : List String :=
  ["nan", "sll", "slt", "sltu", "xor", "nan", "or", "and"]

def csrInstructions : List String := ["nan", "csrrw", "csrrs", "csrrc"]

/-- `registerNames.at(reg)`, for a field of five bits. -/
def registerName (reg : BitVec 5) : String :=
  registerNames.get ⟨reg.toNat, reg.isLt⟩

/-- `names.at(funct3)` -/
def nameAt (names : List String) (funct3 : BitVec 3) :
    Except Unprinted String :=
  match names[funct3.toNat]? with
  | some name => .ok name
  | none => .error .outOfRange

/-- The labels of the `switch` of `getCsrName`. -/
def csrNames : List (U32 × String) :=
  [(0x0300, "mstatus"), (0x0301, "misa"), (0x0304, "mie"),
    (0x0305, "mtvec"), (0x0340, "mscratch"), (0x0341, "mepc"),
    (0x0342, "mcause"), (0x0343, "mtval"), (0x0344, "mip"),
    (0x0b00, "mcycle"), (0x0b02, "minstret"), (0x0b80, "mcycleh"),
    (0x0b82, "minstreth"), (0x0f11, "mvendorid"), (0x0f12, "marchid"),
    (0x0f13, "mimpid"), (0x0f14, "mhartid")]

def getCsrName (csrAddr : U32) : String :=
  (csrNames.lookup csrAddr).getD "CSR_UNKWN"

-- =========================================================== the formats

/-- `"%-8s%s,0x%x"` -/
def formatUpper (name : String) (rd : BitVec 5) (immediate : U32) : String :=
  row 8 name [registerName rd, "0x" ++ hex immediate.toNat]

/-- `"%-8s%s,%x"` -/
def formatJump (name : String) (rd : BitVec 5) (target : U32) : String :=
  row 8 name [registerName rd, hex target.toNat]

/-- `"%-8s%s,%d(%s)"` -/
def formatMemory (name : String) (reg : BitVec 5) (immediate : U32)
    (rs1 : BitVec 5) : String :=
  row 8 name
    [registerName reg,
      decimal immediate.toInt ++ "(" ++ registerName rs1 ++ ")"]

/-- `"%-8s%s,%s,%x"` -/
def formatBranch (name : String) (rs1 rs2 : BitVec 5) (target : U32) :
    String :=
  row 8 name [registerName rs1, registerName rs2, hex target.toNat]

/-- `"%-8s%s,%s,0x%x"` -/
def formatShift (name : String) (rd rs1 : BitVec 5) (immediate : U32) :
    String :=
  row 8 name
    [registerName rd, registerName rs1, "0x" ++ hex immediate.toNat]

/-- `"%-8s%s,%s,%d"` -/
def formatImmediate (name : String) (rd rs1 : BitVec 5) (immediate : U32) :
    String :=
  row 8 name [registerName rd, registerName rs1, decimal immediate.toInt]

/-- `"%-8s%s,%s,%s"`, with registers. -/
def formatRegister (name : String) (rd rs1 rs2 : BitVec 5) : String :=
  row 8 name [registerName rd, registerName rs1, registerName rs2]

/-- `"%-8s%s,%s,%s"`, with a CSR. -/
def formatCsr (name : String) (rd : BitVec 5) (csrAddr : U32)
    (rs1 : BitVec 5) : String :=
  row 8 name [registerName rd, getCsrName csrAddr, registerName rs1]

-- ==================================================== generateInstructionStr

/-- `ElfParser::generateInstructionStr`. -/
def generateInstructionStr (entry : DisassembledEntry) :
    Except Unprinted String :=
  let w := entry.instruction
  let immediate := ImmediateGenerator.getImmediate w
  match opcodeOf w with
  | .LUI =>
      .ok (formatUpper "lui" (rd w) ((immediate >>> 12) &&& 0xfffff))
  | .AUIPC =>
      .ok (formatUpper "auipc" (rd w) ((immediate >>> 12) &&& 0xfffff))
  | .JAL => .ok (formatJump "jal" (rd w) (immediate + entry.address))
  | .JALR => .ok (formatMemory "jalr" (rd w) immediate (rs1 w))
  | .BTYPE => do
      let name ← nameAt branchInstructions (funct3 w)
      .ok (formatBranch name (rs1 w) (rs2 w) (immediate + entry.address))
  | .LOAD => do
      let name ← nameAt loadInstructions (funct3 w)
      .ok (formatMemory name (rd w) immediate (rs1 w))
  | .STORE => do
      let name ← nameAt storeInstructions (funct3 w)
      .ok (formatMemory name (rs2 w) immediate (rs1 w))
  | .ITYPE =>
      match funct3 w with
      | 0b101 =>
          match funct7 w with
          | 0b0100000 => .ok (formatShift "srai" (rd w) (rs1 w) immediate)
          | 0b0000000 => .ok (formatShift "srli" (rd w) (rs1 w) immediate)
          | _ => .error .unwritten
      | 0b001 => .ok (formatShift "slli" (rd w) (rs1 w) immediate)
      | _ => do
          let name ← nameAt iInstructions (funct3 w)
          .ok (formatImmediate name (rd w) (rs1 w) immediate)
  | .RTYPE =>
      match funct3 w with
      | 0b000 =>
          match funct7 w with
          | 0b0000000 => .ok (formatRegister "add" (rd w) (rs1 w) (rs2 w))
          | 0b0100000 => .ok (formatRegister "sub" (rd w) (rs1 w) (rs2 w))
          | _ => .error .unwritten
      | 0b101 =>
          match funct7 w with
          | 0b0000000 => .ok (formatRegister "srl" (rd w) (rs1 w) (rs2 w))
          | 0b0100000 => .ok (formatRegister "sra" (rd w) (rs1 w) (rs2 w))
          | _ => .error .unwritten
      | _ => do
          let name ← nameAt rInstructions (funct3 w)
          .ok (formatRegister name (rd w) (rs1 w) (rs2 w))
  | .PRIV =>
      match funct3 w with
      | 0b000 =>
          if immediate = MRET_IMM then .ok "mret"
          else if immediate = ECALL_IMM then .ok "ecall"
          else .error .unwritten
      | _ => do
          let name ← nameAt csrInstructions (funct3 w)
          .ok (formatCsr name (rd w) (csrAddr w) (rs1 w))
  | .other => .ok (hexPadded 8 w.toNat)

end ElfParser

end T89Emu
