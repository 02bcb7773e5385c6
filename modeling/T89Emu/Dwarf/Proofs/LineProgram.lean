/-
The line table is the one of the DWARF state machine.

`machineOf` is the machine whose registers are those of the standard's
machine modulo `2 ^ 32`, `entryOf` the row of the table that stands for
one of the standard's rows. One round of the loop on an instruction is
that instruction (`perform_machineOf`, by cases on the instruction); a
program follows by induction (`performs_run`).

The invariant of the simulation is that the operation index stays below
the operations of an instruction: then no sum of the 32-bit arithmetic
that finds the new index wraps.
-/
import T89Emu.Dwarf.Proofs.LineItem

namespace T89Emu.Dwarf

open Cpp Decode Bytes LineProgram

-- =================================================== the two machines

/-- The row that stands for a row of the standard. -/
def entryOf (r : Registers) : LineEntry where
  address := BitVec.ofNat 32 r.address
  line := BitVec.ofInt 32 r.line
  column := BitVec.ofNat 32 r.column
  file := BitVec.ofNat 32 r.file
  isStmt := r.isStmt
  prologueEnd := r.prologueEnd
  epilogueBegin := r.epilogueBegin

/-- The machine that stands for the standard's machine. -/
def machineOf (r : Registers) (rows : List Registers) : LineMachine where
  address := BitVec.ofNat 32 r.address
  opIndex := BitVec.ofNat 32 r.opIndex
  file := BitVec.ofNat 32 r.file
  line := BitVec.ofInt 32 r.line
  column := BitVec.ofNat 32 r.column
  isStmt := r.isStmt
  basicBlock := r.basicBlock
  endSequence := r.endSequence
  prologueEnd := r.prologueEnd
  epilogueBegin := r.epilogueBegin
  isa := BitVec.ofNat 32 r.isa
  discriminator := BitVec.ofNat 32 r.discriminator
  lineMatrix := rows.map entryOf

/-- A row is appended behind the others. -/
theorem pushEntry_machineOf (r : Registers) (rows : List Registers) :
    (machineOf r rows).pushEntry = machineOf r (rows ++ [r]) := by
  simp [LineMachine.pushEntry, machineOf, entryOf]

/-- A new sequence begins with the registers of the header. -/
theorem clearRegisters_machineOf (h : ProgramHeader) (r : Registers)
    (rows : List Registers) :
    (machineOf r rows).clearRegisters h
      = machineOf (.initial (headerOf h)) rows := rfl

-- ========================================================== 32-bit sums

/-- Division of small numbers is exact. -/
theorem divide_ofNat {a : Nat} (ha : a < 2 ^ 32) {b : U8}
    (hb : 0 < b.toNat) :
    LineMachine.divide (BitVec.ofNat 32 a) (b.setWidth 32)
      = .ok (BitVec.ofNat 32 (a / b.toNat)) := by
  rw [LineMachine.divide, if_neg (divisor_ne_zero hb)]
  refine congrArg Except.ok (BitVec.eq_of_toNat_eq ?_)
  have hlt := b.isLt
  have hle := Nat.div_le_self a b.toNat
  rw [BitVec.toNat_udiv, BitVec.toNat_ofNat, BitVec.toNat_ofNat,
    BitVec.toNat_setWidth, Nat.mod_eq_of_lt ha,
    Nat.mod_eq_of_lt (a := b.toNat) (by omega),
    Nat.mod_eq_of_lt (by omega)]

/-- And so is the remainder. -/
theorem remainder_ofNat {a : Nat} (ha : a < 2 ^ 32) {b : U8}
    (hb : 0 < b.toNat) :
    LineMachine.remainder (BitVec.ofNat 32 a) (b.setWidth 32)
      = .ok (BitVec.ofNat 32 (a % b.toNat)) := by
  rw [LineMachine.remainder, if_neg (divisor_ne_zero hb)]
  refine congrArg Except.ok (BitVec.eq_of_toNat_eq ?_)
  have hlt := b.isLt
  have hle := Nat.mod_le a b.toNat
  rw [BitVec.toNat_umod, BitVec.toNat_ofNat, BitVec.toNat_ofNat,
    BitVec.toNat_setWidth, Nat.mod_eq_of_lt ha,
    Nat.mod_eq_of_lt (a := b.toNat) (by omega),
    Nat.mod_eq_of_lt (a := a % b.toNat) (by omega)]

/-- Advancing by a number of operations that does not wrap. -/
theorem advance_machineOf {h : ProgramHeader} {r : Registers}
    (rows : List Registers)
    (hr : r.opIndex < h.maximumOperationsPerInstruction.toNat) {n : Nat}
    (hn : n < 2 ^ 31) :
    (machineOf r rows).advance h (BitVec.ofNat 32 n)
      = .ok (machineOf (r.advance (headerOf h) n) rows) := by
  have hops := h.maximumOperationsPerInstruction.isLt
  have hsum : (machineOf r rows).opIndex + BitVec.ofNat 32 n
      = BitVec.ofNat 32 (r.opIndex + n) := (BitVec.ofNat_add ..).symm
  have haddress : (machineOf r rows).getNewAddress h (BitVec.ofNat 32 n)
      = .ok (BitVec.ofNat 32 (r.advance (headerOf h) n).address) := by
    rw [LineMachine.getNewAddress, hsum, divide_ofNat (by omega) (by omega),
      ok_bind]
    show Except.ok (BitVec.ofNat 32 r.address
      + h.minimumInstructionLength.setWidth 32 * BitVec.ofNat 32 _) = _
    rw [← BitVec.ofNat_toNat, ← BitVec.ofNat_mul, ← BitVec.ofNat_add]
    rfl
  have hindex : (machineOf r rows).getNewOpIndex h (BitVec.ofNat 32 n)
      = .ok (BitVec.ofNat 32 (r.advance (headerOf h) n).opIndex) := by
    rw [LineMachine.getNewOpIndex, hsum,
      remainder_ofNat (by omega) (by omega)]
    rfl
  rw [LineMachine.advance, haddress, hindex]
  rfl

-- ======================================================= instructions

variable {h : ProgramHeader} {r : Registers}

/-- A special opcode counts from the base. -/
theorem adjusted_opcode {opcode : U8}
    (hbase : h.opcodeBase.toNat ≤ opcode.toNat) :
    (opcode - h.opcodeBase).setWidth 32
      = BitVec.ofNat 32 (opcode.toNat - h.opcodeBase.toNat) := by
  apply BitVec.eq_of_toNat_eq
  rw [BitVec.toNat_setWidth, BitVec.toNat_sub_of_le hbase,
    BitVec.toNat_ofNat]

/-- The operations that a special opcode advances by. -/
theorem operationAdvance_machineOf (hrange : 0 < h.lineRange.toNat)
    {opcode : U8} (hbase : h.opcodeBase.toNat ≤ opcode.toNat) :
    LineMachine.operationAdvance h
        ((opcode - h.opcodeBase).setWidth 32)
      = .ok (BitVec.ofNat 32 ((headerOf h).operations opcode.toNat)) := by
  have hlt := opcode.isLt
  rw [adjusted_opcode hbase]
  exact divide_ofNat (by omega) hrange

/-- There are few of them. -/
theorem operations_lt (opcode : U8) :
    (headerOf h).operations opcode.toNat < 2 ^ 31 := by
  have hle := Nat.div_le_self (opcode.toNat - h.opcodeBase.toNat)
    h.lineRange.toNat
  have hlt := opcode.isLt
  simp only [Header.operations, headerOf]
  omega

/-- A special opcode that is one under the header. -/
theorem specialOpcode_machineOf (rows : List Registers)
    (hops : r.opIndex < h.maximumOperationsPerInstruction.toNat)
    (hrange : 0 < h.lineRange.toNat) {opcode : U8}
    (hbase : h.opcodeBase.toNat ≤ opcode.toNat) :
    (machineOf r rows).specialOpcode h opcode
      = .ok (machineOf (exec (headerOf h) r (.special opcode)).1
          (rows ++ [r.special (headerOf h) opcode.toNat])) := by
  have hlt := opcode.isLt
  have hrest := remainder_ofNat
    (a := opcode.toNat - h.opcodeBase.toNat) (by omega) hrange
  rw [LineMachine.specialOpcode]
  simp only [operationAdvance_machineOf hrange hbase, ok_bind,
    advance_machineOf rows hops (operations_lt opcode)]
  rw [adjusted_opcode hbase, hrest, ok_bind]
  have hline : BitVec.ofInt 32 r.line + (h.lineBase.signExtend 32
      + BitVec.ofNat 32 ((opcode.toNat - h.opcodeBase.toNat)
        % h.lineRange.toNat))
      = BitVec.ofInt 32 (r.special (headerOf h) opcode.toNat).line := by
    rw [BitVec.signExtend, ← BitVec.ofInt_natCast, ← BitVec.ofInt_add,
      ← BitVec.ofInt_add, ← Int.add_assoc]
    rfl
  show Except.ok (LineMachine.resetFlags (LineMachine.pushEntry
    { machineOf (r.advance (headerOf h) _) rows with
      line := BitVec.ofInt 32 r.line + _ })) = _
  rw [hline]
  exact congrArg (fun m => Except.ok (LineMachine.resetFlags m))
    (pushEntry_machineOf (r.special (headerOf h) opcode.toNat) rows)

/-- An operand of at most four bytes is delivered. -/
theorem ulebOutcome_short {e : Leb128} (he : e.size ≤ 4) :
    ulebOutcome e = .ok (BitVec.ofNat 64 e.unsigned) := by
  rw [ulebOutcome, if_pos (Nat.le_succ_of_le he), ulebValue_exact he]

/-- A short number with a sign is delivered as it is. -/
theorem slebOutcome_short {e : Leb128} (he : e.size ≤ 4) :
    slebOutcome e = .ok (BitVec.ofInt 64 e.signed) := by
  rw [slebOutcome, if_pos (.inl he), slebValue_exact he]

/-- A round that appends no row. -/
theorem perform_silent {i : Instr} {rows : List Registers}
    (hsilent : (exec (headerOf h) r i).2 = none)
    (hrun : (machineOf r rows).perform h (.known i)
      = .ok (machineOf (exec (headerOf h) r i).1 rows)) :
    (machineOf r rows).perform h (.known i)
      = .ok (machineOf (exec (headerOf h) r i).1
          (rows ++ (exec (headerOf h) r i).2.toList)) := by
  rw [hrun, hsilent, Option.toList_none, List.append_nil]

/-- An operand that ends up in a register. -/
theorem operand_machineOf {e : Leb128} (he : e.size ≤ 4)
    (f : U32 → LineMachine) :
    (ulebOutcome e >>= fun value => .ok (f (value.setWidth 32)))
      = (.ok (f (BitVec.ofNat 32 e.unsigned)) : Proc LineMachine) := by
  rw [ulebOutcome_short he, ok_bind, setWidth_ofNat]

/-- One round of the loop on an instruction is that instruction. -/
theorem perform_machineOf (rows : List Registers)
    (hops : r.opIndex < h.maximumOperationsPerInstruction.toNat)
    (hrange : 0 < h.lineRange.toNat) {i : Instr}
    (hi : i.At (headerOf h) 4) :
    (machineOf r rows).perform h (.known i)
      = .ok (machineOf (exec (headerOf h) r i).1
          (rows ++ (exec (headerOf h) r i).2.toList)) := by
  cases i with
  | special opcode => exact specialOpcode_machineOf rows hops hrange hi
  | copy =>
      show Except.ok (machineOf r rows).pushEntry.resetFlags = _
      rw [pushEntry_machineOf]
      rfl
  | advancePc advance =>
      have hlt : advance.unsigned < 2 ^ 31 := by
        have hpow : 2 ^ (7 * advance.size) ≤ 2 ^ 28 :=
          Nat.pow_le_pow_right (by omega) (by have := hi.2; omega)
        have hunsigned := advance.unsigned_lt
        omega
      refine perform_silent rfl ?_
      show (ulebOutcome advance >>= fun value =>
        (machineOf r rows).advance h (value.setWidth 32)) = _
      rw [ulebOutcome_short hi.2, ok_bind, setWidth_ofNat]
      exact advance_machineOf rows hops hlt
  | advanceLine advance =>
      refine perform_silent rfl ?_
      show (slebOutcome advance >>= fun delta => Except.ok
        { machineOf r rows with
          line := BitVec.ofInt 32 r.line + delta.setWidth 32 }) = _
      rw [slebOutcome_short hi.2, ok_bind, setWidth_ofInt,
        ← BitVec.ofInt_add]
      rfl
  | setFile file =>
      exact perform_silent rfl
        (operand_machineOf hi.2 fun file => { machineOf r rows with file })
  | setColumn column =>
      exact perform_silent rfl
        (operand_machineOf hi.2 fun column =>
          { machineOf r rows with column })
  | negateStmt => exact perform_silent rfl rfl
  | setBasicBlock => exact perform_silent rfl rfl
  | constAddPc =>
      have hbase : h.opcodeBase.toNat ≤ (255 : U8).toNat :=
        Nat.le_of_lt_succ h.opcodeBase.isLt
      refine perform_silent rfl ?_
      show (LineMachine.operationAdvance h
        (((255 : U8) - h.opcodeBase).setWidth 32) >>= fun n =>
          (machineOf r rows).advance h n) = _
      rw [operationAdvance_machineOf hrange hbase, ok_bind]
      exact advance_machineOf rows hops (operations_lt (h := h) 255)
  | fixedAdvancePc advance =>
      have hsum : BitVec.ofNat 32 r.address + advance.setWidth 32
          = BitVec.ofNat 32 (r.address + advance.toNat) := by
        rw [BitVec.ofNat_add, BitVec.ofNat_toNat]
      refine perform_silent rfl ?_
      show Except.ok { machineOf r rows with
        address := BitVec.ofNat 32 r.address + advance.setWidth 32
        opIndex := 0 } = _
      rw [hsum]
      rfl
  | setPrologueEnd => exact perform_silent rfl rfl
  | setEpilogueBegin => exact perform_silent rfl rfl
  | setIsa isa =>
      exact perform_silent rfl
        (operand_machineOf hi.2 fun isa => { machineOf r rows with isa })
  | endSequence length =>
      obtain ⟨-, hshort, -⟩ := hi
      show (ulebOutcome length >>= fun _ => Except.ok ((machineOf
        { r with endSequence := true } rows).pushEntry.clearRegisters h))
        = _
      rw [ulebOutcome_short hshort, ok_bind, pushEntry_machineOf,
        clearRegisters_machineOf]
      rfl
  | setAddress length address =>
      obtain ⟨-, hshort, -⟩ := hi
      have hmachine : ({ machineOf r rows with address, opIndex := 0 }
            : LineMachine)
          = machineOf { r with address := address.toNat, opIndex := 0 }
              rows := by
        simp [machineOf]
      refine perform_silent rfl ?_
      show (ulebOutcome length >>= fun _ => Except.ok
        ({ machineOf r rows with address, opIndex := 0 } : LineMachine)) = _
      rw [ulebOutcome_short hshort, ok_bind, hmachine]
      rfl
  | setDiscriminator length discriminator =>
      obtain ⟨-, hshort, hwidth, -⟩ := hi
      refine perform_silent rfl ?_
      show (ulebOutcome length >>= fun _ => ulebOutcome discriminator
        >>= fun value => Except.ok { machineOf r rows with
          discriminator := value.setWidth 32 }) = _
      rw [ulebOutcome_short hshort, ok_bind]
      exact operand_machineOf hwidth fun discriminator =>
        { machineOf r rows with discriminator }

-- =========================================================== programs

/-- A program is performed as the standard's machine runs it. -/
theorem performs_run (hops : 0 < h.maximumOperationsPerInstruction.toNat)
    (hrange : 0 < h.lineRange.toNat) {program : List Instr}
    (hprogram : ∀ i ∈ program, i.At (headerOf h) 4)
    (rows : List Registers)
    (hr : r.opIndex < h.maximumOperationsPerInstruction.toNat) :
    (program.map Item.known).foldlM (LineMachine.perform h)
        (machineOf r rows)
      = .ok (machineOf (run (headerOf h) r rows program).1
          (run (headerOf h) r rows program).2) := by
  induction program generalizing r rows with
  | nil => rfl
  | cons i program ih =>
      obtain ⟨hi, hrest⟩ := List.forall_mem_cons.1 hprogram
      rw [List.map_cons, List.foldlM_cons,
        perform_machineOf rows hr hrange hi, ok_bind,
        ih hrest _ (exec_opIndex (h := headerOf h) hops hr i)]
      rfl

/-- The row of the table that a row of the standard becomes: address and
line modulo `2 ^ 32`, the rest as it is. -/
structure IsRow (e : LineEntry) (r : Registers) : Prop where
  address : e.address.toNat = r.address % 2 ^ 32
  line : (e.line.toNat : Int) = r.line % 2 ^ 32
  column : e.column.toNat = r.column
  file : e.file.toNat = r.file
  isStmt : e.isStmt = r.isStmt
  prologueEnd : e.prologueEnd = r.prologueEnd
  epilogueBegin : e.epilogueBegin = r.epilogueBegin

/-- Small registers fit into the members of a row. -/
theorem isRow_entryOf {row : Registers} (hrow : row.Bounded (2 ^ 28)) :
    IsRow (entryOf row) row where
  address := BitVec.toNat_ofNat ..
  line := by
    simp only [entryOf, BitVec.toNat_ofInt]
    omega
  column := by
    have hcolumn := hrow.2
    simp only [entryOf, BitVec.toNat_ofNat]
    omega
  file := by
    have hfile := hrow.1
    simp only [entryOf, BitVec.toNat_ofNat]
    omega
  isStmt := rfl
  prologueEnd := rfl
  epilogueBegin := rfl

/-- The stream of a unit with its cursor at the program, which ends the
unit. -/
def programStream (header : List U8) (program : List Instr)
    (behind : List U8) : DataStream :=
  ⟨some (header ++ (bytes program ++ behind)), header.length,
    (header ++ bytes program).length⟩

/-- The line table is the one that the DWARF state machine builds. -/
theorem lineMatrix_is_table {h : ProgramHeader}
    (hrange : h.lineRange ≠ 0)
    (hops : h.maximumOperationsPerInstruction ≠ 0) {program : List Instr}
    (hprogram : ∀ i ∈ program, i.At (headerOf h) 4)
    (header behind : List U8) :
    ∃ m s, generateLineNumberMatrix h (programStream header program behind)
        = .ok (m, s)
      ∧ List.Forall₂ IsRow m.lineMatrix (table (headerOf h) program) := by
  have hpositive : ∀ b : U8, b ≠ 0 → 0 < b.toNat := fun b hb =>
    Nat.pos_of_ne_zero fun h0 => hb (BitVec.eq_of_toNat_eq h0)
  have hannounced : ∀ i ∈ program.map Item.known,
      i.Announced (headerOf h) :=
    List.forall_mem_map.2 fun i hi => (hprogram i hi).announced
  have hrun := matrix_heads hannounced header behind
  have hstart : startOf h = machineOf (.initial (headerOf h)) [] := rfl
  rw [hstart, performs_run (hpositive _ hops) (hpositive _ hrange) hprogram
    [] (hpositive _ hops), ← bytes_eq_heads] at hrun
  refine ⟨_, _, hrun, ?_⟩
  have hnone : ∀ row ∈ ([] : List Registers), row.Bounded (2 ^ (7 * 4)) := by
    simp
  have hbounded := run_bounded (show 0 < 4 by omega) hprogram
    (r := .initial (headerOf h)) (initial_bounded (by omega)) hnone
  show List.Forall₂ IsRow ((table (headerOf h) program).map entryOf) _
  rw [List.forall₂_map_left_iff, List.forall₂_same]
  exact fun row hrow => isRow_entryOf (hbounded row hrow)

/-- A header as GCC writes it for a RISC-V target. -/
def smallHeader : ProgramHeader where
  unitLength := 0
  version := 5
  addressSize := 4
  segmentSelectorSize := 0
  headerLength := 0
  minimumInstructionLength := 1
  maximumOperationsPerInstruction := 1
  defaultIsStmt := 1
  lineBase := 0xf6
  lineRange := 0xf2
  opcodeBase := 13
  standardOpcodeLengths := [0, 1, 1, 1, 1, 0, 0, 0, 1, 0, 0, 1]
  directoryEntryFormatCount := 0
  directoryEntryFormat := []
  directoriesCount := 0
  directories := []
  fileNameEntryFormatCount := 0
  fileNameEntryFormat := []
  fileNamesCount := 0
  fileNames := []

/-- A function of two lines. -/
def smallProgram : List Instr :=
  [.setColumn (.single 7), .setAddress (.single 5) 0x10000,
    .advanceLine (.single 4), .copy, .fixedAdvancePc 8, .special 26,
    .advancePc ⟨[0x08], 1⟩, .endSequence (.single 1)]

/-- Its table. -/
theorem small_table :
    ∃ m s, generateLineNumberMatrix smallHeader
        (programStream [] smallProgram [0]) = .ok (m, s)
      ∧ List.Forall₂ IsRow m.lineMatrix
          (table (headerOf smallHeader) smallProgram) :=
  lineMatrix_is_table (by decide) (by decide) (by decide) [] [0]

end T89Emu.Dwarf
