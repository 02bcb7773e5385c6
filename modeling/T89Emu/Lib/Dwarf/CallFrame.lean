/-
Call frame information as the DWARF standard defines it, as far as the
canonical frame address (CFA) goes: a section of entries of two kinds,
their instructions, and the rule for the CFA that they put in force at a
location.

Entries are those of the 32-bit format for addresses of 32 bits without
segments: a common entry of any of the three versions there are, with an
empty augmentation, whose numbers are LEB128 encodings of any length, and
a frame entry, which refers to its common entry by the offset of that in
the section. Version 1 has a byte for the register of the return address;
only registers below 128 are written here, where that byte is the
encoding of one group.
-/
import T89Emu.Lib.Bytes
import T89Emu.Lib.Leb128

namespace CallFrame

open Bytes

-- ========================================================== instructions

/-- The instructions of this subset. Three keep an operand in the low six
bits of their opcode. -/
inductive Instr
  | nop
  | advanceLoc (delta : BitVec 6)
  | advanceLoc1 (delta : BitVec 8)
  | defCfa (register distance : Leb128)
  | defCfaRegister (register : Leb128)
  | defCfaOffset (distance : Leb128)
  | offset (register : BitVec 6) (factored : Leb128)
  | restore (register : BitVec 6)
  deriving DecidableEq, Repr

/-- The bytes that stand for an instruction. -/
def Instr.bytes : Instr → List (BitVec 8)
  | nop => [0x00]
  | advanceLoc delta => [0b01#2 ++ delta]
  | advanceLoc1 delta => [0x02, delta]
  | defCfa register distance => 0x0c :: (register.bytes ++ distance.bytes)
  | defCfaRegister register => 0x0d :: register.bytes
  | defCfaOffset distance => 0x0e :: distance.bytes
  | offset register factored => (0b10#2 ++ register) :: factored.bytes
  | restore register => [0b11#2 ++ register]

/-- The bytes of a list of instructions. -/
def bytes (program : List Instr) : List (BitVec 8) :=
  program.flatMap Instr.bytes

@[simp] theorem bytes_nil : bytes [] = [] := rfl

@[simp] theorem bytes_cons (i : Instr) (program : List Instr) :
    bytes (i :: program) = i.bytes ++ bytes program := rfl

theorem Instr.bytes_pos (i : Instr) : 0 < i.bytes.length := by
  cases i <;> simp [Instr.bytes]

-- ================================================================== rows

/-- A row of the table: where it begins, and its rule for the CFA, a
register and an offset. -/
structure Row where
  location : Nat
  cfa : Option (Nat × Nat)
  deriving DecidableEq, Repr

/-- What an instruction makes of the row. -/
def exec (codeAlignment : Nat) (row : Row) : Instr → Row
  | .advanceLoc delta =>
      { row with location := row.location + delta.toNat * codeAlignment }
  | .advanceLoc1 delta =>
      { row with location := row.location + delta.toNat * codeAlignment }
  | .defCfa register distance =>
      { row with cfa := some (register.unsigned, distance.unsigned) }
  | .defCfaRegister register =>
      { row with
        cfa := row.cfa.map fun rule => (register.unsigned, rule.2) }
  | .defCfaOffset distance =>
      { row with cfa := row.cfa.map fun rule => (rule.1, distance.unsigned) }
  | .nop | .offset _ _ | .restore _ => row

/-- The row in force at a location: that of the instructions in front of
the first advance past it. -/
def rowAt (codeAlignment location : Nat) : Row → List Instr → Row
  | row, [] => row
  | row, i :: program =>
      if location < (exec codeAlignment row i).location then row
      else rowAt codeAlignment location (exec codeAlignment row i) program

-- =============================================================== entries

/-- A common information entry. In version 1 the register of the return
address is a single byte. -/
structure Cie where
  version : BitVec 8
  codeAlignment : Leb128
  dataAlignment : Leb128
  returnAddressRegister : Leb128
  instructions : List Instr
  known : version = 1 ∨ version = 3 ∨ version = 4
  narrow : version = 1 → returnAddressRegister.size = 1
  deriving DecidableEq, Repr

/-- A frame description entry. What stands in the place of a common
entry's mark is the offset of its common entry. -/
structure Fde where
  ciePointer : BitVec 32
  initialLocation : BitVec 32
  addressRange : BitVec 32
  instructions : List Instr
  isFde : ciePointer ≠ 0xffffffff
  deriving DecidableEq, Repr

inductive Entry
  | cie (c : Cie)
  | fde (f : Fde)
  deriving DecidableEq, Repr

/-- The four bytes of a word. -/
def wordBytes (v : BitVec 32) : List (BitVec 8) :=
  [byteOf v 0, byteOf v 1, byteOf v 2, byteOf v 3]

/-- The sizes of an address and of a segment selector, which version 4
writes down. -/
def Cie.sizes (c : Cie) : List (BitVec 8) :=
  if c.version = 4 then [4, 0] else []

/-- What stands behind an entry's length and mark, up to its
instructions. -/
def Cie.head (c : Cie) : List (BitVec 8) :=
  [c.version, 0] ++ c.sizes ++ c.codeAlignment.bytes
    ++ c.dataAlignment.bytes ++ c.returnAddressRegister.bytes

def Fde.head (f : Fde) : List (BitVec 8) :=
  wordBytes f.initialLocation ++ wordBytes f.addressRange

namespace Entry

def instructions : Entry → List Instr
  | cie c => c.instructions
  | fde f => f.instructions

/-- The word behind the length. -/
def mark : Entry → BitVec 32
  | cie _ => 0xffffffff
  | fde f => f.ciePointer

def head : Entry → List (BitVec 8)
  | cie c => c.head
  | fde f => f.head

/-- What the length of an entry counts. -/
def body (e : Entry) : List (BitVec 8) :=
  wordBytes e.mark ++ e.head ++ CallFrame.bytes e.instructions

def bytes (e : Entry) : List (BitVec 8) :=
  wordBytes (BitVec.ofNat 32 e.body.length) ++ e.body

theorem length_bytes (e : Entry) : e.bytes.length = 4 + e.body.length := by
  simp [bytes, wordBytes]
  omega

end Entry

/-- The bytes of a section. -/
def sectionBytes (entries : List Entry) : List (BitVec 8) :=
  entries.flatMap Entry.bytes

@[simp] theorem sectionBytes_cons (e : Entry) (entries : List Entry) :
    sectionBytes (e :: entries) = e.bytes ++ sectionBytes entries := rfl

/-- The common entry at an offset, the first of the entries lying at
`start`. -/
def cieAt (offset : Nat) : Nat → List Entry → Option Cie
  | _, [] => none
  | start, .cie c :: entries =>
      if start = offset then some c
      else cieAt offset (start + (Entry.cie c).bytes.length) entries
  | start, .fde f :: entries =>
      cieAt offset (start + (Entry.fde f).bytes.length) entries

/-- The entries behind the common entry at an offset. -/
def behindCieAt (offset : Nat) : Nat → List Entry → List Entry
  | _, [] => []
  | start, .cie c :: entries =>
      if start = offset then entries
      else behindCieAt offset (start + (Entry.cie c).bytes.length) entries
  | start, .fde f :: entries =>
      behindCieAt offset (start + (Entry.fde f).bytes.length) entries

/-- The rule for the CFA that a frame entry puts in force at a location:
the common entry's instructions are carried out, and then those of the
frame entry that precede the first advance past it. -/
def cfaRule (entries : List Entry) (f : Fde) (location : Nat) :
    Option (Nat × Nat) := do
  let c ← cieAt f.ciePointer.toNat 0 entries
  let first : Row := ⟨f.initialLocation.toNat, none⟩
  let initial := c.instructions.foldl (exec c.codeAlignment.unsigned) first
  (rowAt c.codeAlignment.unsigned location
    { first with cfa := initial.cfa } f.instructions).cfa

end CallFrame
