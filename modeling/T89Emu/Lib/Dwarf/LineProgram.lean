/-
Line number programs, as the DWARF standard (version 5) defines them: a
state machine whose registers are numbers of any size, the instructions
that change them, and the rows that instructions append to the line
table.

An instruction keeps the encoding of its operands, because programs are
given as bytes: `Instr.bytes` is what stands in the section for it. What
a byte begins depends on the header: from `opcodeBase` on it is a special
opcode, below it a standard one, and the byte 0 below it announces an
extended opcode behind its length (`Instr.At`).
-/
import Mathlib.Data.Int.Notation
import T89Emu.Lib.Bytes
import T89Emu.Lib.Leb128

namespace LineProgram

/-- The fields of a program's header that its meaning depends on. -/
structure Header where
  minimumInstructionLength : Nat
  maximumOperationsPerInstruction : Nat
  defaultIsStmt : Bool
  lineBase : Int
  lineRange : Nat
  opcodeBase : Nat

structure Registers where
  address : Nat
  opIndex : Nat
  file : Nat
  line : Int
  column : Nat
  isStmt : Bool
  basicBlock : Bool
  endSequence : Bool
  prologueEnd : Bool
  epilogueBegin : Bool
  isa : Nat
  discriminator : Nat

/-- The registers at the start of a sequence. -/
def Registers.initial (h : Header) : Registers where
  address := 0
  opIndex := 0
  file := 1
  line := 1
  column := 0
  isStmt := h.defaultIsStmt
  basicBlock := false
  endSequence := false
  prologueEnd := false
  epilogueBegin := false
  isa := 0
  discriminator := 0

/-- The instructions: special opcodes, the standard ones in the order of
their numbers, and three extended ones with their lengths. -/
inductive Instr
  | special (opcode : BitVec 8)
  | copy
  | advancePc (advance : Leb128)
  | advanceLine (advance : Leb128)
  | setFile (file : Leb128)
  | setColumn (column : Leb128)
  | negateStmt
  | setBasicBlock
  | constAddPc
  | fixedAdvancePc (advance : BitVec 16)
  | setPrologueEnd
  | setEpilogueBegin
  | setIsa (isa : Leb128)
  | endSequence (length : Leb128)
  | setAddress (length : Leb128) (address : BitVec 32)
  | setDiscriminator (length discriminator : Leb128)

-- ============================================================== meaning

/-- Advance by a number of operations. -/
def Registers.advance (h : Header) (r : Registers) (operations : Nat) :
    Registers :=
  { r with
    address := r.address + h.minimumInstructionLength
      * ((r.opIndex + operations) / h.maximumOperationsPerInstruction)
    opIndex := (r.opIndex + operations)
      % h.maximumOperationsPerInstruction }

/-- What is reset when a row was appended. -/
def Registers.appended (r : Registers) : Registers :=
  { r with
    basicBlock := false
    prologueEnd := false
    epilogueBegin := false
    discriminator := 0 }

/-- The operations that a special opcode advances by. -/
def Header.operations (h : Header) (opcode : Nat) : Nat :=
  (opcode - h.opcodeBase) / h.lineRange

/-- The registers after a special opcode's advance. -/
def Registers.special (h : Header) (r : Registers) (opcode : Nat) :
    Registers :=
  let r := r.advance h (h.operations opcode)
  { r with
    line := r.line + h.lineBase
      + ((opcode - h.opcodeBase) % h.lineRange : Nat) }

/-- One instruction: the registers behind it, and the row it appends. -/
def exec (h : Header) (r : Registers) :
    Instr → Registers × Option Registers
  | .special opcode =>
      let r := r.special h opcode.toNat
      (r.appended, some r)
  | .copy => (r.appended, some r)
  | .advancePc advance => (r.advance h advance.unsigned, none)
  | .advanceLine advance =>
      ({ r with line := r.line + advance.signed }, none)
  | .setFile file => ({ r with file := file.unsigned }, none)
  | .setColumn column => ({ r with column := column.unsigned }, none)
  | .negateStmt => ({ r with isStmt := !r.isStmt }, none)
  | .setBasicBlock => ({ r with basicBlock := true }, none)
  | .constAddPc => (r.advance h (h.operations 255), none)
  | .fixedAdvancePc advance =>
      ({ r with address := r.address + advance.toNat, opIndex := 0 }, none)
  | .setPrologueEnd => ({ r with prologueEnd := true }, none)
  | .setEpilogueBegin => ({ r with epilogueBegin := true }, none)
  | .setIsa isa => ({ r with isa := isa.unsigned }, none)
  | .endSequence _ => (.initial h, some { r with endSequence := true })
  | .setAddress _ address =>
      ({ r with address := address.toNat, opIndex := 0 }, none)
  | .setDiscriminator _ discriminator =>
      ({ r with discriminator := discriminator.unsigned }, none)

/-- The registers and the table behind a program. -/
def run (h : Header) : Registers → List Registers → List Instr →
    Registers × List Registers
  | r, rows, [] => (r, rows)
  | r, rows, i :: program =>
      run h (exec h r i).1 (rows ++ (exec h r i).2.toList) program

/-- The table of a program. -/
def table (h : Header) (program : List Instr) : List Registers :=
  (run h (.initial h) [] program).2

-- ============================================================= encoding

/-- The bytes of an instruction. -/
def Instr.bytes : Instr → List (BitVec 8)
  | .special opcode => [opcode]
  | .copy => [1]
  | .advancePc advance => 2 :: advance.bytes
  | .advanceLine advance => 3 :: advance.bytes
  | .setFile file => 4 :: file.bytes
  | .setColumn column => 5 :: column.bytes
  | .negateStmt => [6]
  | .setBasicBlock => [7]
  | .constAddPc => [8]
  | .fixedAdvancePc advance =>
      [9, Bytes.byteOf advance 0, Bytes.byteOf advance 1]
  | .setPrologueEnd => [10]
  | .setEpilogueBegin => [11]
  | .setIsa isa => 12 :: isa.bytes
  | .endSequence length => 0 :: (length.bytes ++ [1])
  | .setAddress length address =>
      0 :: (length.bytes ++ [2, Bytes.byteOf address 0,
        Bytes.byteOf address 1, Bytes.byteOf address 2,
        Bytes.byteOf address 3])
  | .setDiscriminator length discriminator =>
      0 :: (length.bytes ++ (4 :: discriminator.bytes))

/-- The bytes of a program. -/
def bytes (program : List Instr) : List (BitVec 8) :=
  program.flatMap Instr.bytes

/-- The bytes of the instruction are that instruction under the header,
lengths are the right ones, and no number takes more than `width`
bytes. -/
def Instr.At (h : Header) (width : Nat) : Instr → Prop
  | .special opcode => h.opcodeBase ≤ opcode.toNat
  | .copy => 1 < h.opcodeBase
  | .advancePc advance => 2 < h.opcodeBase ∧ advance.size ≤ width
  | .advanceLine advance => 3 < h.opcodeBase ∧ advance.size ≤ width
  | .setFile file => 4 < h.opcodeBase ∧ file.size ≤ width
  | .setColumn column => 5 < h.opcodeBase ∧ column.size ≤ width
  | .negateStmt => 6 < h.opcodeBase
  | .setBasicBlock => 7 < h.opcodeBase
  | .constAddPc => 8 < h.opcodeBase
  | .fixedAdvancePc _ => 9 < h.opcodeBase
  | .setPrologueEnd => 10 < h.opcodeBase
  | .setEpilogueBegin => 11 < h.opcodeBase
  | .setIsa isa => 12 < h.opcodeBase ∧ isa.size ≤ width
  | .endSequence length =>
      0 < h.opcodeBase ∧ length.size ≤ width ∧ length.unsigned = 1
  | .setAddress length _ =>
      0 < h.opcodeBase ∧ length.size ≤ width ∧ length.unsigned = 5
  | .setDiscriminator length discriminator =>
      0 < h.opcodeBase ∧ length.size ≤ width
        ∧ discriminator.size ≤ width
        ∧ length.unsigned = 1 + discriminator.size

instance (h : Header) (width : Nat) : (i : Instr) →
    Decidable (i.At h width)
  | .special _ => inferInstanceAs (Decidable (_ ≤ _))
  | .copy | .negateStmt | .setBasicBlock | .constAddPc
  | .fixedAdvancePc _ | .setPrologueEnd | .setEpilogueBegin =>
      inferInstanceAs (Decidable (_ < _))
  | .advancePc _ | .advanceLine _ | .setFile _ | .setColumn _
  | .setIsa _ => inferInstanceAs (Decidable (_ ∧ _))
  | .endSequence _ | .setAddress _ _ =>
      inferInstanceAs (Decidable (_ ∧ _ ∧ _))
  | .setDiscriminator _ _ => inferInstanceAs (Decidable (_ ∧ _ ∧ _ ∧ _))

variable {h : Header}

theorem bytes_cons (i : Instr) (program : List Instr) :
    bytes (i :: program) = i.bytes ++ bytes program := rfl

theorem Instr.bytes_pos (i : Instr) : 0 < i.bytes.length := by
  cases i <;> simp [Instr.bytes]

-- ============================================================ invariants

/-- The operation index stays below the operations of an instruction. -/
theorem exec_opIndex (hops : 0 < h.maximumOperationsPerInstruction)
    {r : Registers} (hr : r.opIndex < h.maximumOperationsPerInstruction)
    (i : Instr) :
    (exec h r i).1.opIndex < h.maximumOperationsPerInstruction := by
  cases i with
  | special opcode => exact Nat.mod_lt _ hops
  | advancePc advance => exact Nat.mod_lt _ hops
  | constAddPc => exact Nat.mod_lt _ hops
  | fixedAdvancePc advance => exact hops
  | endSequence length => exact hops
  | setAddress length address => exact hops
  | copy => exact hr
  | advanceLine advance => exact hr
  | setFile file => exact hr
  | setColumn column => exact hr
  | negateStmt => exact hr
  | setBasicBlock => exact hr
  | setPrologueEnd => exact hr
  | setEpilogueBegin => exact hr
  | setIsa isa => exact hr
  | setDiscriminator length discriminator => exact hr

/-- File and column are below a bound. -/
def Registers.Bounded (bound : Nat) (r : Registers) : Prop :=
  r.file < bound ∧ r.column < bound

theorem initial_bounded {bound : Nat} (hbound : 1 < bound) :
    (Registers.initial h).Bounded bound :=
  ⟨hbound, Nat.lt_trans Nat.zero_lt_one hbound⟩

/-- Operands of at most `width` bytes keep file and column below
`2 ^ (7 * width)`, in the registers and in the row. -/
theorem exec_bounded {width : Nat} (hwidth : 0 < width) {r : Registers}
    (hr : r.Bounded (2 ^ (7 * width))) {i : Instr} (hi : i.At h width) :
    (exec h r i).1.Bounded (2 ^ (7 * width))
      ∧ ∀ row ∈ (exec h r i).2.toList, row.Bounded (2 ^ (7 * width)) := by
  have hoperand : ∀ e : Leb128, e.size ≤ width →
      e.unsigned < 2 ^ (7 * width) := fun e he =>
    Nat.lt_of_lt_of_le e.unsigned_lt
      (Nat.pow_le_pow_right (by omega) (by omega))
  have hone : 1 < 2 ^ (7 * width) := Nat.one_lt_two_pow (by omega)
  have hsome : ∀ x : Registers, x.Bounded (2 ^ (7 * width)) →
      ∀ row ∈ (some x).toList, row.Bounded (2 ^ (7 * width)) := by
    intro x hx row hrow
    rw [Option.mem_toList, Option.some.injEq] at hrow
    exact hrow ▸ hx
  cases i with
  | special opcode => exact ⟨hr, hsome (r.special h opcode.toNat) hr⟩
  | copy => exact ⟨hr, hsome r hr⟩
  | setFile file => exact ⟨⟨hoperand file hi.2, hr.2⟩, by simp [exec]⟩
  | setColumn column => exact ⟨⟨hr.1, hoperand column hi.2⟩, by simp [exec]⟩
  | endSequence length =>
      exact ⟨initial_bounded hone, hsome { r with endSequence := true } hr⟩
  | advancePc advance => exact ⟨hr, by simp [exec]⟩
  | advanceLine advance => exact ⟨hr, by simp [exec]⟩
  | negateStmt => exact ⟨hr, by simp [exec]⟩
  | setBasicBlock => exact ⟨hr, by simp [exec]⟩
  | constAddPc => exact ⟨hr, by simp [exec]⟩
  | fixedAdvancePc advance => exact ⟨hr, by simp [exec]⟩
  | setPrologueEnd => exact ⟨hr, by simp [exec]⟩
  | setEpilogueBegin => exact ⟨hr, by simp [exec]⟩
  | setIsa isa => exact ⟨hr, by simp [exec]⟩
  | setAddress length address => exact ⟨hr, by simp [exec]⟩
  | setDiscriminator length discriminator => exact ⟨hr, by simp [exec]⟩

/-- And so in the whole table. -/
theorem run_bounded {width : Nat} (hwidth : 0 < width)
    {program : List Instr} (hprogram : ∀ i ∈ program, i.At h width)
    {r : Registers} {rows : List Registers}
    (hr : r.Bounded (2 ^ (7 * width)))
    (hrows : ∀ row ∈ rows, row.Bounded (2 ^ (7 * width))) :
    ∀ row ∈ (run h r rows program).2, row.Bounded (2 ^ (7 * width)) := by
  induction program generalizing r rows with
  | nil => exact hrows
  | cons i program ih =>
      obtain ⟨hnext, hrow⟩ := exec_bounded hwidth hr
        (hprogram i List.mem_cons_self)
      refine ih (fun j hj => hprogram j (List.mem_cons_of_mem i hj)) hnext
        fun row hmem => ?_
      rcases List.mem_append.1 hmem with hmem | hmem
      · exact hrows row hmem
      · exact hrow row hmem

end LineProgram
