/-
The base integer instructions as words: what the core and the
disassembler make of an encoding.

`operationAt` gives the line of assembler that an instruction of RV32I,
FENCE, ECALL and EBREAK aside, is at an address. The core selects that operation for the encoding
(`decodes_encode`), the disassembler prints its text
(`listed_encode`), and since a text has one reading and the operands
of a line one origin (`operationAt_inj`), the listing of an instruction
tells which one it is.
-/
import T89Emu.Core.Proofs.Immediate
import T89Emu.Elf.Proofs.Disassembler
import T89Emu.Lib.Rv32.Machine

namespace T89Emu

open ElfParser

-- ============================================================ the lines

section Mnemonics

def branchOp : Rv32.Condition → BranchOp
  | .eq => .beq
  | .ne => .bne
  | .lt => .blt
  | .ge => .bge
  | .ltu => .bltu
  | .geu => .bgeu

def loadOp : Rv32.LoadOp → LoadOp
  | .lb => .lb
  | .lh => .lh
  | .lw => .lw
  | .lbu => .lbu
  | .lhu => .lhu

def storeOp : Rv32.StoreOp → StoreOp
  | .sb => .sb
  | .sh => .sh
  | .sw => .sw

def immediateOp : Rv32.ImmOp → ImmediateOp
  | .addi => .addi
  | .slti => .slti
  | .sltiu => .sltiu
  | .xori => .xori
  | .ori => .ori
  | .andi => .andi

def shiftOpOf : Rv32.ShiftOp → ShiftOp
  | .slli => .slli
  | .srli => .srli
  | .srai => .srai

def registerOp : Rv32.RegOp → RegisterOp
  | .add => .add
  | .sub => .sub
  | .sll => .sll
  | .slt => .slt
  | .sltu => .sltu
  | .xor => .xor
  | .srl => .srl
  | .sra => .sra
  | .or => .or
  | .and => .and

end Mnemonics

/-- The line of assembler that an instruction is at an address: targets
are absolute, offsets and immediates are extended. -/
def operationAt (a : U32) : Rv32.Instruction → Operation
  | .lui rd imm => .upper .lui rd (imm.setWidth 32)
  | .auipc rd imm => .upper .auipc rd (imm.setWidth 32)
  | .jal rd offset => .jal rd (Rv32.halfwords offset + a)
  | .jalr rd rs1 offset => .jalr rd (offset.signExtend 32) rs1
  | .branch c rs1 rs2 offset =>
      .branch (branchOp c) rs1 rs2 (Rv32.halfwords offset + a)
  | .load l rd rs1 offset => .load (loadOp l) rd (offset.signExtend 32) rs1
  | .store o rs2 rs1 offset =>
      .store (storeOp o) rs2 (offset.signExtend 32) rs1
  | .immediate o rd rs1 imm =>
      .immediate (immediateOp o) rd rs1 (imm.signExtend 32)
  | .shift o rd rs1 amount =>
      .shift (shiftOpOf o) rd rs1 (amount.setWidth 32)
  | .register o rd rs1 rs2 => .register (registerOp o) rd rs1 rs2

-- ============================================================ the fields

/-- The upper immediate, as the disassembler prints it. -/
theorem upper_shifted (imm : BitVec 20) :
    (Rv32.upper imm >>> 12) &&& 0xfffff = imm.setWidth 32 := by
  apply BitVec.eq_of_getLsbD_eq
  intro i hi
  simp only [Rv32.upper, BitVec.getLsbD_and, BitVec.getLsbD_ushiftRight,
    BitVec.getLsbD_append, BitVec.getLsbD_setWidth]
  interval_cases i <;> simp

/-- An upper immediate has no low bits. -/
theorem upper_low (imm : BitVec 20) :
    (Rv32.upper imm).setWidth 12 = 0#12 := by
  unfold Rv32.upper
  rw [BitVec.setWidth_append]
  simp

section Words

variable (f7 : BitVec 7) (f : BitVec 3) (r2 r1 d : BitVec 5)

/-- What the units of the core find in LUI and AUIPC. -/
theorem upper_fields {o : BitVec 7} {op : Opcode} (imm : BitVec 20)
    (ho : o = Rv32.LUI ∧ op = .LUI ∨ o = Rv32.AUIPC ∧ op = .AUIPC) :
    let w := Rv32.uWord d o (Rv32.upper imm)
    opcodeOf w = op ∧ rd w = d
      ∧ ImmediateGenerator.getImmediate w = Rv32.upper imm := by
  intro w
  have hop : opcodeOf w = op := by
    rcases ho with ⟨rfl, rfl⟩ | ⟨rfl, rfl⟩
    · exact opcodeOf_eq (Rv32.opcode_uWord ..) (by decide)
    · exact opcodeOf_eq (Rv32.opcode_uWord ..) (by decide)
  refine ⟨hop, Rv32.rd_uWord .., ?_⟩
  rw [getImmediate_u (by rw [hop]; exact ho.imp And.right And.right),
    Rv32.uImmediate_uWord d o _ (upper_low imm)]

/-- In JAL. -/
theorem jump_fields (offset : BitVec 20) :
    let w := Rv32.jWord d Rv32.JAL (offset ++ 0#1)
    opcodeOf w = .JAL ∧ rd w = d
      ∧ ImmediateGenerator.getImmediate w = Rv32.halfwords offset := by
  intro w
  have hop : opcodeOf w = .JAL :=
    opcodeOf_eq (Rv32.opcode_jWord ..) (by decide)
  refine ⟨hop, Rv32.rd_jWord .., ?_⟩
  rw [getImmediate_jal hop,
    Rv32.jImmediate_jWord d _ _ (Rv32.getLsbD_append_one offset)]
  rfl

/-- In a branch. -/
theorem branch_fields (offset : BitVec 12) :
    let w := Rv32.bWord f r2 r1 Rv32.BRANCH (offset ++ 0#1)
    opcodeOf w = .BTYPE ∧ funct3 w = f ∧ rs1 w = r1 ∧ rs2 w = r2
      ∧ ImmediateGenerator.getImmediate w = Rv32.halfwords offset := by
  intro w
  have hop : opcodeOf w = .BTYPE :=
    opcodeOf_eq (Rv32.opcode_bWord ..) (by decide)
  refine ⟨hop, Rv32.funct3_bWord .., Rv32.rs1_bWord .., Rv32.rs2_bWord ..,
    ?_⟩
  rw [getImmediate_b hop,
    Rv32.bImmediate_bWord f r2 r1 _ _ (Rv32.getLsbD_append_one offset)]
  rfl

/-- In JALR and the loads. -/
theorem load_fields {o : BitVec 7} {op : Opcode} (imm : BitVec 12)
    (ho : o = Rv32.JALR ∧ op = .JALR ∨ o = Rv32.LOAD ∧ op = .LOAD) :
    let w := Rv32.iWord f r1 d o imm
    opcodeOf w = op ∧ funct3 w = f ∧ rd w = d ∧ rs1 w = r1
      ∧ ImmediateGenerator.getImmediate w = imm.signExtend 32 := by
  intro w
  have hop : opcodeOf w = op := by
    rcases ho with ⟨rfl, rfl⟩ | ⟨rfl, rfl⟩
    · exact opcodeOf_eq (Rv32.opcode_iWord ..) (by decide)
    · exact opcodeOf_eq (Rv32.opcode_iWord ..) (by decide)
  refine ⟨hop, Rv32.funct3_iWord .., Rv32.rd_iWord .., Rv32.rs1_iWord ..,
    ?_⟩
  rw [getImmediate_i (by rw [hop]; exact ho.imp And.right And.right),
    Rv32.iImmediate_iWord]

/-- In a store. -/
theorem store_fields (imm : BitVec 12) :
    let w := Rv32.sWord f r2 r1 Rv32.STORE imm
    opcodeOf w = .STORE ∧ funct3 w = f ∧ rs1 w = r1 ∧ rs2 w = r2
      ∧ ImmediateGenerator.getImmediate w = imm.signExtend 32 := by
  intro w
  have hop : opcodeOf w = .STORE :=
    opcodeOf_eq (Rv32.opcode_sWord ..) (by decide)
  refine ⟨hop, Rv32.funct3_sWord .., Rv32.rs1_sWord .., Rv32.rs2_sWord ..,
    ?_⟩
  rw [getImmediate_s hop, Rv32.sImmediate_sWord]

/-- In an operation with an immediate. -/
theorem immediate_fields (imm : BitVec 12) (hf : ¬ (f = 1 ∨ f = 5)) :
    let w := Rv32.iWord f r1 d Rv32.OP_IMM imm
    opcodeOf w = .ITYPE ∧ funct3 w = f ∧ rd w = d ∧ rs1 w = r1
      ∧ ImmediateGenerator.getImmediate w = imm.signExtend 32 := by
  intro w
  have hop : opcodeOf w = .ITYPE :=
    opcodeOf_eq (Rv32.opcode_iWord ..) (by decide)
  have hfunct : funct3 w = f := Rv32.funct3_iWord ..
  refine ⟨hop, hfunct, Rv32.rd_iWord .., Rv32.rs1_iWord .., ?_⟩
  rw [getImmediate_itype hop (by rw [hfunct]; exact hf),
    Rv32.iImmediate_iWord]

/-- In a shift by a constant. -/
theorem shift_fields (amount : BitVec 5) (hf : f = 1 ∨ f = 5) :
    let w := Rv32.shiftWord f7 f r1 d Rv32.OP_IMM amount
    opcodeOf w = .ITYPE ∧ funct3 w = f ∧ funct7 w = f7 ∧ rd w = d
      ∧ rs1 w = r1
      ∧ ImmediateGenerator.getImmediate w = amount.setWidth 32 := by
  intro w
  have hop : opcodeOf w = .ITYPE :=
    opcodeOf_eq (Rv32.opcode_shiftWord ..) (by decide)
  have hfunct : funct3 w = f := Rv32.funct3_shiftWord ..
  refine ⟨hop, hfunct, Rv32.funct7_shiftWord .., Rv32.rd_shiftWord ..,
    Rv32.rs1_shiftWord .., ?_⟩
  rw [getImmediate_shift hop (by rw [hfunct]; exact hf),
    Rv32.shamt_shiftWord]

/-- In an operation on registers. -/
theorem register_fields :
    let w := Rv32.rWord f7 f r2 r1 d Rv32.OP
    opcodeOf w = .RTYPE ∧ funct3 w = f ∧ funct7 w = f7 ∧ rd w = d
      ∧ rs1 w = r1 ∧ rs2 w = r2 :=
  ⟨opcodeOf_eq (Rv32.opcode_shiftWord ..) (by decide),
    Rv32.funct3_shiftWord .., Rv32.funct7_shiftWord ..,
    Rv32.rd_shiftWord .., Rv32.rs1_shiftWord .., Rv32.rs2_shiftWord ..⟩

end Words

-- ====================================================== what the core does

/-- The core selects the operation that the word encodes. -/
theorem decodes_encode (a : U32) (i : Rv32.Instruction) :
    Decodes i.encode a (operationAt a i) := by
  cases i with
  | lui d imm =>
      obtain ⟨hop, hd, himm⟩ := upper_fields d imm (.inl ⟨rfl, rfl⟩)
      have h := Decodes.lui (a := a) hop
      rwa [hd, himm, upper_shifted] at h
  | auipc d imm =>
      obtain ⟨hop, hd, himm⟩ := upper_fields d imm (.inr ⟨rfl, rfl⟩)
      have h := Decodes.auipc (a := a) hop
      rwa [hd, himm, upper_shifted] at h
  | jal d offset =>
      obtain ⟨hop, hd, himm⟩ := jump_fields d offset
      have h := Decodes.jal (a := a) hop
      rwa [hd, himm] at h
  | jalr d r1 offset =>
      obtain ⟨hop, -, hd, h1, himm⟩ :=
        load_fields 0 r1 d offset (.inl ⟨rfl, rfl⟩)
      have h := Decodes.jalr (a := a) hop
      rwa [hd, h1, himm] at h
  | branch c r1 r2 offset =>
      obtain ⟨hop, hf, h1, h2, himm⟩ := branch_fields c.funct3 r2 r1 offset
      have h := Decodes.branch (a := a) (m := branchOp c) hop (by
        intro A B
        rw [hf]
        cases c with
        | eq => exact sub_beq_zero A B
        | ne => exact congrArg (!·) (sub_beq_zero A B)
        | lt => exact branchAlu_blt A B
        | ge => exact branchAlu_bge A B
        | ltu => rfl
        | geu => rfl)
      rwa [h1, h2, himm] at h
  | load l d r1 offset =>
      obtain ⟨hop, hf, hd, h1, himm⟩ :=
        load_fields l.funct3 r1 d offset (.inr ⟨rfl, rfl⟩)
      have h := Decodes.load (a := a) (m := loadOp l) hop (by
        rw [hf]
        cases l <;> rfl)
      rwa [hd, h1, himm] at h
  | store o r2 r1 offset =>
      obtain ⟨hop, hf, h1, h2, himm⟩ := store_fields o.funct3 r2 r1 offset
      have h := Decodes.store (a := a) (m := storeOp o) hop (by
        rw [hf]
        cases o <;> rfl)
      rwa [h1, h2, himm] at h
  | immediate o d r1 imm =>
      obtain ⟨hop, hf, hd, h1, himm⟩ := immediate_fields o.op.funct3 r1 d imm
        (by cases o <;> decide)
      have h := Decodes.immediate (a := a) (m := immediateOp o) hop (by
        rw [hf]
        cases o <;> rfl)
      rwa [hd, h1, himm] at h
  | shift o d r1 amount =>
      obtain ⟨hop, hf, h7, hd, h1, himm⟩ := shift_fields o.op.funct7
        o.op.funct3 r1 d amount (by cases o <;> decide)
      have h := Decodes.shift (a := a) (m := shiftOpOf o) hop (by
        rw [hf, h7]
        cases o <;> rfl)
      rwa [hd, h1, himm] at h
  | register o d r1 r2 =>
      obtain ⟨hop, hf, h7, hd, h1, h2⟩ :=
        register_fields o.funct7 o.funct3 r2 r1 d
      have h := Decodes.register (a := a) (m := registerOp o) hop (by
        rw [hf, h7]
        cases o <;> rfl)
      rwa [hd, h1, h2] at h

-- ============================================== what the disassembler prints

/-- The disassembler prints the line. -/
theorem listed_encode (a : U32) (i : Rv32.Instruction) :
    generateInstructionStr ⟨a, i.encode⟩ = .ok (operationAt a i).text := by
  unfold generateInstructionStr
  dsimp only
  cases i with
  | lui d imm =>
      obtain ⟨hop, hd, himm⟩ := upper_fields d imm (.inl ⟨rfl, rfl⟩)
      simp only [Rv32.Instruction.encode, hop, hd, himm, upper_shifted]
      rfl
  | auipc d imm =>
      obtain ⟨hop, hd, himm⟩ := upper_fields d imm (.inr ⟨rfl, rfl⟩)
      simp only [Rv32.Instruction.encode, hop, hd, himm, upper_shifted]
      rfl
  | jal d offset =>
      obtain ⟨hop, hd, himm⟩ := jump_fields d offset
      simp only [Rv32.Instruction.encode, hop, hd, himm]
      rfl
  | jalr d r1 offset =>
      obtain ⟨hop, -, hd, h1, himm⟩ :=
        load_fields 0 r1 d offset (.inl ⟨rfl, rfl⟩)
      simp only [Rv32.Instruction.encode, hop, hd, h1, himm]
      rfl
  | branch c r1 r2 offset =>
      obtain ⟨hop, hf, h1, h2, himm⟩ := branch_fields c.funct3 r2 r1 offset
      simp only [Rv32.Instruction.encode, hop, hf, h1, h2, himm]
      cases c <;> rfl
  | load l d r1 offset =>
      obtain ⟨hop, hf, hd, h1, himm⟩ :=
        load_fields l.funct3 r1 d offset (.inr ⟨rfl, rfl⟩)
      simp only [Rv32.Instruction.encode, hop, hf, hd, h1, himm]
      cases l <;> rfl
  | store o r2 r1 offset =>
      obtain ⟨hop, hf, h1, h2, himm⟩ := store_fields o.funct3 r2 r1 offset
      simp only [Rv32.Instruction.encode, hop, hf, h1, h2, himm]
      cases o <;> rfl
  | immediate o d r1 imm =>
      obtain ⟨hop, hf, hd, h1, himm⟩ := immediate_fields o.op.funct3 r1 d imm
        (by cases o <;> decide)
      simp only [Rv32.Instruction.encode, hop, hf, hd, h1, himm]
      cases o <;> rfl
  | shift o d r1 amount =>
      obtain ⟨hop, hf, h7, hd, h1, himm⟩ := shift_fields o.op.funct7
        o.op.funct3 r1 d amount (by cases o <;> decide)
      simp only [Rv32.Instruction.encode, hop, hf, h7, hd, h1, himm]
      cases o <;> rfl
  | register o d r1 r2 =>
      obtain ⟨hop, hf, h7, hd, h1, h2⟩ :=
        register_fields o.funct7 o.funct3 r2 r1 d
      simp only [Rv32.Instruction.encode, hop, hf, h7, hd, h1, h2]
      cases o <;> rfl

-- ============================================================ the way back

/-- What an immediate is extended to tells what it was. -/
theorem signExtend_inj {n : Nat} {u v : BitVec n} (hn : n ≤ 32)
    (h : u.signExtend 32 = v.signExtend 32) : u = v := by
  rw [← Bytes.setWidth_signExtend u hn, h, Bytes.setWidth_signExtend v hn]

/-- Nothing is lost when a number is extended to a word. -/
theorem setWidth_inj {n : Nat} {u v : BitVec n} (hn : n ≤ 32)
    (h : u.setWidth 32 = v.setWidth 32) : u = v := by
  have hback := congrArg (BitVec.setWidth n) h
  rwa [BitVec.setWidth_setWidth_of_le _ hn,
    BitVec.setWidth_setWidth_of_le _ hn, BitVec.setWidth_eq,
    BitVec.setWidth_eq] at hback

/-- A target and the address tell the offset. -/
theorem target_inj {n : Nat} {u v : BitVec n} {a : U32} (hn : n + 1 ≤ 32)
    (h : Rv32.halfwords u + a = Rv32.halfwords v + a) : u = v := by
  have hbytes := signExtend_inj hn ((BitVec.add_left_inj a).1 h)
  exact (BitVec.append_left_inj 0#1).1 hbytes

/-- No two branches have the same mnemonic. -/
theorem branchOp_inj {c c' : Rv32.Condition}
    (h : branchOp c = branchOp c') : c = c' := by
  cases c <;> cases c' <;> first | rfl | cases h

/-- No two loads have. -/
theorem loadOp_inj {l l' : Rv32.LoadOp} (h : loadOp l = loadOp l') :
    l = l' := by
  cases l <;> cases l' <;> first | rfl | cases h

/-- No two stores have. -/
theorem storeOp_inj {o o' : Rv32.StoreOp} (h : storeOp o = storeOp o') :
    o = o' := by
  cases o <;> cases o' <;> first | rfl | cases h

/-- No two operations with an immediate have. -/
theorem immediateOp_inj {o o' : Rv32.ImmOp}
    (h : immediateOp o = immediateOp o') : o = o' := by
  cases o <;> cases o' <;> first | rfl | cases h

/-- No two shifts by an immediate have. -/
theorem shiftOpOf_inj {o o' : Rv32.ShiftOp}
    (h : shiftOpOf o = shiftOpOf o') : o = o' := by
  cases o <;> cases o' <;> first | rfl | cases h

/-- And no two operations on registers have. -/
theorem registerOp_inj {o o' : Rv32.RegOp}
    (h : registerOp o = registerOp o') : o = o' := by
  cases o <;> cases o' <;> first | rfl | cases h

/-- Two instructions are different lines at an address. -/
theorem operationAt_inj {a : U32} {i j : Rv32.Instruction}
    (h : operationAt a i = operationAt a j) : i = j := by
  cases i with
  | lui d imm =>
      cases j <;> simp only [operationAt, Operation.upper.injEq,
        reduceCtorEq, false_and, true_and] at h
      rw [h.1, setWidth_inj (by decide) h.2]
  | auipc d imm =>
      cases j <;> simp only [operationAt, Operation.upper.injEq,
        reduceCtorEq, false_and, true_and] at h
      rw [h.1, setWidth_inj (by decide) h.2]
  | jal d offset =>
      cases j <;> simp only [operationAt, Operation.jal.injEq,
        reduceCtorEq] at h
      rw [h.1, target_inj (by decide) h.2]
  | jalr d r1 offset =>
      cases j <;> simp only [operationAt, Operation.jalr.injEq,
        reduceCtorEq] at h
      rw [h.1, signExtend_inj (by decide) h.2.1, h.2.2]
  | branch c r1 r2 offset =>
      cases j <;> simp only [operationAt, Operation.branch.injEq,
        reduceCtorEq] at h
      rw [branchOp_inj h.1, h.2.1, h.2.2.1,
        target_inj (by decide) h.2.2.2]
  | load l d r1 offset =>
      cases j <;> simp only [operationAt, Operation.load.injEq,
        reduceCtorEq] at h
      rw [loadOp_inj h.1, h.2.1, signExtend_inj (by decide) h.2.2.1,
        h.2.2.2]
  | store o r2 r1 offset =>
      cases j <;> simp only [operationAt, Operation.store.injEq,
        reduceCtorEq] at h
      rw [storeOp_inj h.1, h.2.1, signExtend_inj (by decide) h.2.2.1,
        h.2.2.2]
  | immediate o d r1 imm =>
      cases j <;> simp only [operationAt, Operation.immediate.injEq,
        reduceCtorEq] at h
      rw [immediateOp_inj h.1, h.2.1, h.2.2.1,
        signExtend_inj (by decide) h.2.2.2]
  | shift o d r1 amount =>
      cases j <;> simp only [operationAt, Operation.shift.injEq,
        reduceCtorEq] at h
      rw [shiftOpOf_inj h.1, h.2.1, h.2.2.1,
        setWidth_inj (by decide) h.2.2.2]
  | register o d r1 r2 =>
      cases j <;> simp only [operationAt, Operation.register.injEq,
        reduceCtorEq] at h
      rw [registerOp_inj h.1, h.2.1, h.2.2.1, h.2.2.2]

/-- Texts that agree are the same line: none of them names a CSR. -/
theorem operationAt_of_spells {a : U32} {i j : Rv32.Instruction}
    (h : Operation.Spells (operationAt a i) (operationAt a j)) :
    operationAt a i = operationAt a j := by
  generalize hi : operationAt a i = oi at h
  generalize operationAt a j = oj at h
  cases h with
  | same => rfl
  | unknown =>
      cases i <;> cases hi

/-- The disassembler prints every instruction of RV32I as its line of
assembler, and at each address the text tells which instruction it
is. -/
theorem disassembly_round_trip (a : U32) :
    (∀ i : Rv32.Instruction, generateInstructionStr ⟨a, i.encode⟩
        = .ok (operationAt a i).text)
      ∧ ∀ i j : Rv32.Instruction,
        generateInstructionStr ⟨a, i.encode⟩
            = generateInstructionStr ⟨a, j.encode⟩ ↔ i = j := by
  refine ⟨listed_encode a, fun i j => ⟨fun h => ?_, fun h => by rw [h]⟩⟩
  rw [listed_encode, listed_encode, Except.ok.injEq] at h
  exact operationAt_inj (operationAt_of_spells (Operation.text_inj h))

end T89Emu
