/-
The architecture's constants (Architecture.h) and the integer types
they live in. Fixed-width C++ integers are bit vectors of that width,
so wrap-around is the type's own arithmetic.

Opcodes are the one set of constants that is not kept as numbers: a
word's major opcode is read once (`opcodeOf`) into an enumeration, with
`other` for the values that no `case` label names.
-/
import Mathlib.Init

namespace T89Emu

abbrev U32 := BitVec 32
abbrev U64 := BitVec 64

-- ====================================================== access sizes

@[match_pattern] abbrev BYTE : Nat := 1
@[match_pattern] abbrev HALFWORD : Nat := 2
@[match_pattern] abbrev WORD : Nat := 4

-- ============================================================ opcodes

/-- The major opcodes that the emulator's `switch` statements name. -/
inductive Opcode
  | LUI | AUIPC | JAL | JALR | BTYPE | LOAD | STORE | ITYPE | RTYPE | PRIV
  | other
  deriving DecidableEq, Repr

/-- The major opcode of an instruction word: its low seven bits. -/
def opcodeOf (instruction : U32) : Opcode :=
  let opcode := instruction.extractLsb' 0 7
  if opcode = 0b0110111#7 then .LUI
  else if opcode = 0b0010111#7 then .AUIPC
  else if opcode = 0b1101111#7 then .JAL
  else if opcode = 0b1100111#7 then .JALR
  else if opcode = 0b1100011#7 then .BTYPE
  else if opcode = 0b0000011#7 then .LOAD
  else if opcode = 0b0100011#7 then .STORE
  else if opcode = 0b0010011#7 then .ITYPE
  else if opcode = 0b0110011#7 then .RTYPE
  else if opcode = 0b1110011#7 then .PRIV
  else .other

def ECALL_IMM : U32 := 0b000000000000
def MRET_IMM : U32 := 0b001100000010

-- ======================================================= status codes

def STATUS_OK : U32 := 0xffffffff

def MACHINE_SOFTWARE_INTERRUPT : U32 := 0x80000003
def MACHINE_TIMER_INTERRUPT : U32 := 0x80000007

def INSTRUCTION_ADDRESS_MISALIGNED : U32 := 0x00000000
def INSTRUCTION_ACCESS_FAULT : U32 := 0x00000001
def ILLEGAL_INSTRUCTION : U32 := 0x00000002
def BREAKPOINT : U32 := 0x00000003
def LOAD_ADDRESS_MISALIGNED : U32 := 0x00000004
def LOAD_ACCESS_FAULT : U32 := 0x00000005
def STORE_ADDRESS_MISALIGNED : U32 := 0x00000006
def STORE_ACCESS_FAULT : U32 := 0x00000007
def ECALL_FROM_M_MODE : U32 := 0x0000000b

end T89Emu
