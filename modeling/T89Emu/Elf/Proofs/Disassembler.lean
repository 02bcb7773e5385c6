/-
The disassembler against the core.

Both decode words on their own: the disassembler with `switch`
statements and tables of names, the core with its own `switch`, the
control units and the next-pc unit. `Decodes` says which operation the
core selects for a word: its control units answer with the ALU
operation, the access width or the condition that the mnemonic stands
for, and the operands are the fields of the word. What is selected is
what is executed (`run_of_decodes`), and a printed text names what is
selected (`listing`), unless it is a row of the placeholder
`nan` or the word in hexadecimal digits.
-/
import T89Emu.Core.Proofs.Arithmetic
import T89Emu.Elf.Proofs.Operation

namespace T89Emu

open Bytes Cpp Text ElfParser

variable {L : Layout}

-- ==================================================== what the core selects

/-- The core selects the operation for a word at the address. -/
inductive Decodes (w a : U32) : Operation → Prop
  | lui (hop : opcodeOf w = .LUI) :
      Decodes w a (.upper .lui (rd w)
        ((ImmediateGenerator.getImmediate w >>> 12) &&& 0xfffff))
  | auipc (hop : opcodeOf w = .AUIPC) :
      Decodes w a (.upper .auipc (rd w)
        ((ImmediateGenerator.getImmediate w >>> 12) &&& 0xfffff))
  | jal (hop : opcodeOf w = .JAL) :
      Decodes w a (.jal (rd w) (ImmediateGenerator.getImmediate w + a))
  | jalr (hop : opcodeOf w = .JALR) :
      Decodes w a (.jalr (rd w) (ImmediateGenerator.getImmediate w) (rs1 w))
  | branch (hop : opcodeOf w = .BTYPE) {m : BranchOp}
      (hm : ∀ A B, NextPc.branchAlu A B (funct3 w) = m.taken A B) :
      Decodes w a (.branch m (rs1 w) (rs2 w)
        (ImmediateGenerator.getImmediate w + a))
  | load (hop : opcodeOf w = .LOAD) {m : LoadOp}
      (hm : MemControlUnit.getMemSize (funct3 w) = m.size) :
      Decodes w a (.load m (rd w) (ImmediateGenerator.getImmediate w)
        (rs1 w))
  | store (hop : opcodeOf w = .STORE) {m : StoreOp}
      (hm : MemControlUnit.getMemSize (funct3 w) = m.size) :
      Decodes w a (.store m (rs2 w) (ImmediateGenerator.getImmediate w)
        (rs1 w))
  | shift (hop : opcodeOf w = .ITYPE) {m : ShiftOp}
      (hm : AluControlUnit.getAluOperation .ITYPE (funct7 w) (funct3 w)
        = m.aluOp) :
      Decodes w a (.shift m (rd w) (rs1 w)
        (ImmediateGenerator.getImmediate w))
  | immediate (hop : opcodeOf w = .ITYPE) {m : ImmediateOp}
      (hm : AluControlUnit.getAluOperation .ITYPE (funct7 w) (funct3 w)
        = m.aluOp) :
      Decodes w a (.immediate m (rd w) (rs1 w)
        (ImmediateGenerator.getImmediate w))
  | register (hop : opcodeOf w = .RTYPE) {m : RegisterOp}
      (hm : AluControlUnit.getAluOperation .RTYPE (funct7 w) (funct3 w)
        = m.aluOp) :
      Decodes w a (.register m (rd w) (rs1 w) (rs2 w))
  | csr (hop : opcodeOf w = .PRIV) (hf : funct3 w ≠ 0#3) {m : CsrOp}
      (hm : ∀ (L : Layout) (s : Mcu L), s.executePriv w
        = .retire (m.update s (rd w) (csrAddr w) (rs1 w)) 0 0) :
      Decodes w a (.csr m (rd w) (csrAddr w) (rs1 w))
  | mret (hop : opcodeOf w = .PRIV) (hf : funct3 w = 0#3)
      (hi : ImmediateGenerator.getImmediate w = MRET_IMM) :
      Decodes w a .mret
  | ecall (hop : opcodeOf w = .PRIV) (hf : funct3 w = 0#3)
      (hi : ImmediateGenerator.getImmediate w = ECALL_IMM) :
      Decodes w a .ecall

/-- Nothing is selected under an unknown opcode. -/
theorem Decodes.known {w a : U32} {op : Operation} (h : Decodes w a op) :
    opcodeOf w ≠ .other := by
  intro hnone
  cases h with
  | lui hop | auipc hop | jal hop | jalr hop | branch hop | load hop
  | store hop | shift hop | immediate hop | register hop | csr hop
  | mret hop | ecall hop =>
      rw [hop] at hnone
      cases hnone

-- ====================================================== and what it executes

/-- The upper immediate, printed without its low bits and put back in
place. -/
theorem upper_immediate (v : U32) :
    (((v &&& 0xfffff000) >>> 12) &&& 0xfffff) <<< 12 = v &&& 0xfffff000 := by
  apply BitVec.eq_of_getLsbD_eq
  intro i hi
  interval_cases i <;> simp

/-- The end of an instruction, by the address it goes to. -/
theorem updatePc_eq_goTo (t : Mcu L) (w A B : U32) :
    t.updatePc w A B
      = Operation.goTo t (NextPc.update t.nextPc
          (ImmediateGenerator.getImmediate w) (opcodeOf w) (funct3 w) A B
          t.csr.getMepc) := by
  unfold Mcu.updatePc NextPc.calculateNextPc Operation.goTo
  dsimp only
  split
  · exact if_pos (by decide : INSTRUCTION_ADDRESS_MISALIGNED ≠ STATUS_OK)
  · exact if_neg (not_not.2 rfl)

variable {s : Mcu L} {w : U32}

/-- A word whose arm breaks out of the `switch` goes where the next-pc unit
says. -/
theorem execute_retire {t : Mcu L} {A B target : U32} (hw : s.Fetches w)
    (harm : s.executeOpcode w = .ok (.retire t A B))
    (hnext : NextPc.update t.nextPc (ImmediateGenerator.getImmediate w)
      (opcodeOf w) (funct3 w) A B t.csr.getMepc = target) :
    s.executeInstruction = .ok (Operation.goTo t target) := by
  rw [Mcu.executeInstruction_of_fetches hw, harm, ok_bind]
  dsimp only
  rw [updatePc_eq_goTo, hnext]

/-- The opcodes that always go on to the next word. -/
def Straight (o : Opcode) : Prop :=
  o ≠ .JAL ∧ o ≠ .JALR ∧ o ≠ .BTYPE ∧ o ≠ .PRIV

instance (o : Opcode) : Decidable (Straight o) :=
  inferInstanceAs (Decidable (_ ∧ _))

/-- One that goes on to the next word. -/
theorem execute_straight {t : Mcu L} (hw : s.Fetches w)
    (hsync : t.nextPc = s.pc) (hop : Straight (opcodeOf w))
    (harm : s.executeOpcode w = .ok (.retire t 0 0)) :
    s.executeInstruction = .ok (Operation.goTo t (s.pc + 4)) := by
  refine execute_retire hw harm ?_
  rw [hsync]
  unfold NextPc.update
  obtain ⟨hjal, hjalr, hbranch, hpriv⟩ := hop
  split
  · next h => exact absurd h hjal
  · next h => exact absurd h hjalr
  · next h => exact absurd h hbranch
  · next h => exact absurd h hpriv
  · rfl

/-- An arm that first evaluates something: if that is undefined, so is the
instruction. -/
theorem execute_bind {α : Type} {x : Eval α} {arm : α → Eval (Arm L)}
    {result : α → Eval (U32 × Mcu L)} (hw : s.Fetches w)
    (harm : s.executeOpcode w = x >>= arm)
    (h : ∀ r, s.executeOpcode w = arm r → s.executeInstruction = result r) :
    s.executeInstruction = x >>= result := by
  cases x with
  | error e =>
      rw [Mcu.executeInstruction_of_fetches hw, harm]
      rfl
  | ok r => exact h r harm

/-- An arm that refuses: what it hands on is the result. -/
theorem execute_raise {t : Mcu L} {code : U32} (hw : s.Fetches w)
    (harm : s.executeOpcode w = .ok (.raise code t)) :
    s.executeInstruction = .ok (code, t) := by
  rw [Mcu.executeInstruction_of_fetches hw, harm]
  rfl

/-- One that writes the result of the ALU to `rd`. -/
theorem execute_alu {A B : U32} {op : AluOp} (hw : s.Fetches w)
    (hsync : s.nextPc = s.pc) (hop : Straight (opcodeOf w))
    (harm : s.executeOpcode w = Alu.execute A B op >>= fun v =>
      .ok (.retire (s.writeReg v (rd w)) 0 0)) :
    s.executeInstruction = Alu.execute A B op >>= fun v =>
      .ok (Operation.goTo (s.writeReg v (rd w)) (s.pc + 4)) :=
  execute_bind hw harm fun _ hv => execute_straight hw hsync hop hv

/-- A load: refused by the bus, or on to the next word. -/
theorem execute_load (hw : s.Fetches w) (hsync : s.nextPc = s.pc)
    (hop : opcodeOf w = .LOAD) :
    s.executeInstruction
      = s.busRead (s.rf.read (rs1 w) + ImmediateGenerator.getImmediate w)
          (MemControlUnit.getMemSize (funct3 w)) >>= fun r =>
        if r.1 ≠ STATUS_OK then .ok (r.1, s)
        else initialized r.2 >>= fun v =>
          .ok (Operation.goTo (s.writeReg v (rd w)) (s.pc + 4)) := by
  have harm : s.executeOpcode w
      = s.busRead (s.rf.read (rs1 w) + ImmediateGenerator.getImmediate w)
          (MemControlUnit.getMemSize (funct3 w)) >>= fun r =>
        if r.1 ≠ STATUS_OK then .ok (.raise r.1 s)
        else initialized r.2 >>= fun v =>
          .ok (.retire (s.writeReg v (rd w)) 0 0) := by
    unfold Mcu.executeOpcode
    rw [hop]
  refine execute_bind hw harm fun r hr => ?_
  by_cases hst : r.1 = STATUS_OK
  · rw [if_neg (not_not.2 hst)] at hr ⊢
    exact execute_bind hw hr fun v hv =>
      execute_straight hw hsync (by rw [hop]; decide) hv
  · rw [if_pos hst] at hr ⊢
    exact execute_raise hw hr

/-- A store: refused by the bus, or on to the next word. -/
theorem execute_store (hw : s.Fetches w) (hsync : s.nextPc = s.pc)
    (hop : opcodeOf w = .STORE) :
    s.executeInstruction
      = s.busWrite (s.rf.read (rs1 w) + ImmediateGenerator.getImmediate w)
          (s.rf.read (rs2 w)) (MemControlUnit.getMemSize (funct3 w)) >>=
        fun r => if r.1 ≠ STATUS_OK then .ok (r.1, { s with mem := r.2 })
          else .ok (Operation.goTo { s with mem := r.2 } (s.pc + 4)) := by
  have harm : s.executeOpcode w
      = s.busWrite (s.rf.read (rs1 w) + ImmediateGenerator.getImmediate w)
          (s.rf.read (rs2 w)) (MemControlUnit.getMemSize (funct3 w)) >>=
        fun r =>
          if r.1 ≠ STATUS_OK then .ok (.raise r.1 { s with mem := r.2 })
          else .ok (.retire { s with mem := r.2 } 0 0) := by
    unfold Mcu.executeOpcode
    rw [hop]
  refine execute_bind hw harm fun r hr => ?_
  by_cases hst : r.1 = STATUS_OK
  · rw [if_neg (not_not.2 hst)] at hr ⊢
    exact execute_straight (t := { s with mem := r.2 }) hw hsync
      (by rw [hop]; decide) hr
  · rw [if_pos hst] at hr ⊢
    exact execute_raise hw hr

/-- The printed part of an upper immediate. -/
theorem getImmediate_upper (h : opcodeOf w = .LUI ∨ opcodeOf w = .AUIPC) :
    ((ImmediateGenerator.getImmediate w >>> 12) &&& 0xfffff) <<< 12
      = ImmediateGenerator.getImmediate w := by
  have himm : ImmediateGenerator.getImmediate w = w &&& 0xfffff000 := by
    unfold ImmediateGenerator.getImmediate
    rcases h with h | h
    · rw [h]
    · rw [h]
  rw [himm, upper_immediate]

/-- The core executes what it selects. -/
theorem run_of_decodes {op : Operation} (hw : s.Fetches w)
    (hsync : s.nextPc = s.pc) (h : Decodes w s.pc op) :
    s.executeInstruction = op.run s := by
  cases h with
  | lui hop =>
      unfold Operation.run
      dsimp only
      rw [getImmediate_upper (.inl hop)]
      refine execute_straight hw hsync (by rw [hop]; decide) ?_
      unfold Mcu.executeOpcode
      rw [hop]
  | auipc hop =>
      unfold Operation.run
      dsimp only
      rw [getImmediate_upper (.inr hop)]
      refine execute_straight hw hsync (by rw [hop]; decide) ?_
      unfold Mcu.executeOpcode
      rw [hop]
      rfl
  | jal hop =>
      refine execute_retire (A := 0) (B := 0) hw ?_ ?_
      · unfold Mcu.executeOpcode
        rw [hop]
        rfl
      · unfold NextPc.update
        rw [hop, BitVec.add_comm, ← hsync]
        rfl
  | jalr hop =>
      refine execute_retire (A := s.rf.read (rs1 w)) (B := 0) hw ?_ ?_
      · unfold Mcu.executeOpcode
        rw [hop]
        rfl
      · unfold NextPc.update
        rw [hop]
  | branch hop hm =>
      refine execute_retire (A := s.rf.read (rs1 w)) (B := s.rf.read (rs2 w))
        hw ?_ ?_
      · unfold Mcu.executeOpcode
        rw [hop]
      · unfold NextPc.update
        rw [hop]
        dsimp only
        rw [hm, hsync]
        split
        · exact BitVec.add_comm _ _
        · rfl
  | load hop hm =>
      rw [execute_load hw hsync hop, hm]
      rfl
  | store hop hm =>
      rw [execute_store hw hsync hop, hm]
      rfl
  | shift hop hm =>
      refine execute_alu hw hsync (by rw [hop]; decide) ?_
      unfold Mcu.executeOpcode
      rw [hop, ← hm]
  | immediate hop hm =>
      refine execute_alu hw hsync (by rw [hop]; decide) ?_
      unfold Mcu.executeOpcode
      rw [hop, ← hm]
  | register hop hm =>
      refine execute_alu hw hsync (by rw [hop]; decide) ?_
      unfold Mcu.executeOpcode
      rw [hop, ← hm]
  | @csr hop hf m hm =>
      have harm : s.executeOpcode w = .ok (.retire
          (m.update s (rd w) (csrAddr w) (rs1 w)) 0 0) := by
        unfold Mcu.executeOpcode
        rw [hop]
        exact congrArg Except.ok (hm L s)
      refine execute_retire hw harm ?_
      unfold NextPc.update
      rw [hop]
      dsimp only
      rw [if_neg fun h => hf h.1, m.nextPc_update, hsync]
  | mret hop hf hi =>
      have harm : s.executeOpcode w
          = .ok (.retire { s with csr := Mcu.mretCsr s.csr } 0 0) := by
        unfold Mcu.executeOpcode
        rw [hop]
        exact congrArg Except.ok (Mcu.executePriv_mret hf hi)
      refine execute_retire hw harm ?_
      unfold NextPc.update
      rw [hop]
      dsimp only
      rw [if_pos ⟨hf, hi⟩, Csr.getMepc,
        Mcu.readCsr_mretCsr_of_ne _ (by decide)]
      rfl
  | ecall hop hf hi =>
      have harm : s.executeOpcode w = .ok (.raise ECALL_FROM_M_MODE s) := by
        unfold Mcu.executeOpcode Mcu.executePriv
        rw [hop]
        dsimp only
        rw [hf, hi]
        rfl
      exact execute_raise hw harm

-- ===================================================== and what is printed

/-- What the disassembler makes of a word: the name of the operation that
the core selects, a row of the placeholder, the word in hexadecimal, or
nothing. -/
inductive Listing (w a : U32) : Except Unprinted String → Prop
  | named {op : Operation} (h : Decodes w a op) : Listing w a (.ok op.text)
  | placeholder (hop : opcodeOf w ≠ .other) (fields : List String) :
      Listing w a (.ok (row 8 "nan" fields))
  | raw (hop : opcodeOf w = .other) :
      Listing w a (.ok (hexPadded 8 w.toNat))
  | failed (hop : opcodeOf w ≠ .other) (e : Unprinted) :
      Listing w a (.error e)

theorem funct3_cases : ∀ f : BitVec 3, f = 0#3 ∨ f = 1#3 ∨ f = 2#3
    ∨ f = 3#3 ∨ f = 4#3 ∨ f = 5#3 ∨ f = 6#3 ∨ f = 7#3 := by decide

/-- A difference is 0 exactly for equal operands. -/
theorem sub_beq_zero (A B : U32) : (A - B == 0) = (A == B) := by
  rw [Bool.eq_iff_iff, beq_iff_eq, beq_iff_eq]
  constructor
  · intro h
    rw [← BitVec.sub_add_cancel A B, h]
    exact BitVec.zero_add B
  · intro h
    rw [h]
    exact BitVec.sub_self B

/-- The branches. -/
theorem listing_branch (a : U32) (hop : opcodeOf w = .BTYPE) :
    Listing w a (generateInstructionStr ⟨a, w⟩) := by
  unfold generateInstructionStr
  dsimp only
  rw [hop]
  dsimp only
  rcases funct3_cases (funct3 w) with
    hf | hf | hf | hf | hf | hf | hf | hf
  · rw [hf]
    refine .named (.branch (m := .beq) hop fun A B => ?_)
    rw [hf]
    exact sub_beq_zero A B
  · rw [hf]
    refine .named (.branch (m := .bne) hop fun A B => ?_)
    rw [hf]
    exact congrArg Bool.not (sub_beq_zero A B)
  · rw [hf]
    exact .placeholder (by rw [hop]; decide) _
  · rw [hf]
    exact .placeholder (by rw [hop]; decide) _
  · rw [hf]
    refine .named (.branch (m := .blt) hop fun A B => ?_)
    rw [hf]
    exact branchAlu_blt A B
  · rw [hf]
    refine .named (.branch (m := .bge) hop fun A B => ?_)
    rw [hf]
    exact branchAlu_bge A B
  · rw [hf]
    refine .named (.branch (m := .bltu) hop fun A B => ?_)
    rw [hf]
    rfl
  · rw [hf]
    refine .named (.branch (m := .bgeu) hop fun A B => ?_)
    rw [hf]
    rfl

/-- The loads and the stores. -/
theorem listing_load (a : U32) (hop : opcodeOf w = .LOAD) :
    Listing w a (generateInstructionStr ⟨a, w⟩) := by
  have hfail : ∀ e, Listing w a (.error e) :=
    .failed (by rw [hop]; decide)
  unfold generateInstructionStr
  dsimp only
  rw [hop]
  dsimp only
  rcases funct3_cases (funct3 w) with
    hf | hf | hf | hf | hf | hf | hf | hf
  · rw [hf]
    exact .named (.load (m := .lb) hop (by rw [hf]; rfl))
  · rw [hf]
    exact .named (.load (m := .lh) hop (by rw [hf]; rfl))
  · rw [hf]
    exact .named (.load (m := .lw) hop (by rw [hf]; rfl))
  · rw [hf]
    exact .placeholder (by rw [hop]; decide) _
  · rw [hf]
    exact .named (.load (m := .lbu) hop (by rw [hf]; rfl))
  · rw [hf]
    exact .named (.load (m := .lhu) hop (by rw [hf]; rfl))
  · rw [hf]
    exact hfail _
  · rw [hf]
    exact hfail _

theorem listing_store (a : U32) (hop : opcodeOf w = .STORE) :
    Listing w a (generateInstructionStr ⟨a, w⟩) := by
  have hfail : ∀ e, Listing w a (.error e) :=
    .failed (by rw [hop]; decide)
  unfold generateInstructionStr
  dsimp only
  rw [hop]
  dsimp only
  rcases funct3_cases (funct3 w) with
    hf | hf | hf | hf | hf | hf | hf | hf
  · rw [hf]
    exact .named (.store (m := .sb) hop (by rw [hf]; rfl))
  · rw [hf]
    exact .named (.store (m := .sh) hop (by rw [hf]; rfl))
  · rw [hf]
    exact .named (.store (m := .sw) hop (by rw [hf]; rfl))
  · rw [hf]
    exact hfail _
  · rw [hf]
    exact hfail _
  · rw [hf]
    exact hfail _
  · rw [hf]
    exact hfail _
  · rw [hf]
    exact hfail _

/-- The instructions with an immediate operand. -/
theorem listing_immediate (a : U32) (hop : opcodeOf w = .ITYPE) :
    Listing w a (generateInstructionStr ⟨a, w⟩) := by
  unfold generateInstructionStr
  dsimp only
  rw [hop]
  dsimp only
  split
  · next hf =>
    split
    · next h7 =>
      exact .named (.shift (m := .srai) hop (by rw [hf, h7]; rfl))
    · next h7 =>
      exact .named (.shift (m := .srli) hop (by rw [hf, h7]; rfl))
    · exact .failed (by rw [hop]; decide) _
  · next hf => exact .named (.shift (m := .slli) hop (by rw [hf]; rfl))
  · next h5 h1 =>
    rcases funct3_cases (funct3 w) with
      hf | hf | hf | hf | hf | hf | hf | hf
    · rw [hf]
      exact .named (.immediate (m := .addi) hop (by rw [hf]; rfl))
    · exact absurd hf h1
    · rw [hf]
      exact .named (.immediate (m := .slti) hop (by rw [hf]; rfl))
    · rw [hf]
      exact .named (.immediate (m := .sltiu) hop (by rw [hf]; rfl))
    · rw [hf]
      exact .named (.immediate (m := .xori) hop (by rw [hf]; rfl))
    · exact absurd hf h5
    · rw [hf]
      exact .named (.immediate (m := .ori) hop (by rw [hf]; rfl))
    · rw [hf]
      exact .named (.immediate (m := .andi) hop (by rw [hf]; rfl))

/-- The instructions on registers. -/
theorem listing_register (a : U32) (hop : opcodeOf w = .RTYPE) :
    Listing w a (generateInstructionStr ⟨a, w⟩) := by
  unfold generateInstructionStr
  dsimp only
  rw [hop]
  dsimp only
  split
  · next hf =>
    split
    · next h7 =>
      exact .named (.register (m := .add) hop (by rw [hf, h7]; rfl))
    · next h7 =>
      exact .named (.register (m := .sub) hop (by rw [hf, h7]; rfl))
    · exact .failed (by rw [hop]; decide) _
  · next hf =>
    split
    · next h7 =>
      exact .named (.register (m := .srl) hop (by rw [hf, h7]; rfl))
    · next h7 =>
      exact .named (.register (m := .sra) hop (by rw [hf, h7]; rfl))
    · exact .failed (by rw [hop]; decide) _
  · next h0 h5 =>
    rcases funct3_cases (funct3 w) with
      hf | hf | hf | hf | hf | hf | hf | hf
    · exact absurd hf h0
    · rw [hf]
      exact .named (.register (m := .sll) hop (by rw [hf]; rfl))
    · rw [hf]
      exact .named (.register (m := .slt) hop (by rw [hf]; rfl))
    · rw [hf]
      exact .named (.register (m := .sltu) hop (by rw [hf]; rfl))
    · rw [hf]
      exact .named (.register (m := .xor) hop (by rw [hf]; rfl))
    · exact absurd hf h5
    · rw [hf]
      exact .named (.register (m := .or) hop (by rw [hf]; rfl))
    · rw [hf]
      exact .named (.register (m := .and) hop (by rw [hf]; rfl))

/-- MRET, ECALL and the CSR instructions. -/
theorem listing_priv (a : U32) (hop : opcodeOf w = .PRIV) :
    Listing w a (generateInstructionStr ⟨a, w⟩) := by
  have hfail : ∀ e, Listing w a (.error e) :=
    .failed (by rw [hop]; decide)
  unfold generateInstructionStr
  dsimp only
  rw [hop]
  dsimp only
  split
  · next hf =>
    split
    · next hi => exact .named (.mret hop hf hi)
    · split
      · next hi => exact .named (.ecall hop hf hi)
      · exact hfail _
  · next h0 =>
    rcases funct3_cases (funct3 w) with
      hf | hf | hf | hf | hf | hf | hf | hf
    · exact absurd hf h0
    · rw [hf]
      exact .named (.csr (m := .csrrw) hop h0 fun L s =>
        Mcu.executePriv_csrrw hf)
    · rw [hf]
      refine .named (.csr (m := .csrrs) hop h0 fun L s => ?_)
      rw [Mcu.executePriv_csrrs hf]
      exact (apply_ite (fun t => Arm.retire t 0 0) _ _ _).symm
    · rw [hf]
      refine .named (.csr (m := .csrrc) hop h0 fun L s => ?_)
      rw [Mcu.executePriv_csrrc hf]
      exact (apply_ite (fun t => Arm.retire t 0 0) _ _ _).symm
    · rw [hf]
      exact hfail _
    · rw [hf]
      exact hfail _
    · rw [hf]
      exact hfail _
    · rw [hf]
      exact hfail _

/-- Every word is listed in one of these ways. -/
theorem listing (w a : U32) :
    Listing w a (generateInstructionStr ⟨a, w⟩) := by
  cases hop : opcodeOf w with
  | LUI =>
      unfold generateInstructionStr
      dsimp only
      rw [hop]
      exact .named (.lui hop)
  | AUIPC =>
      unfold generateInstructionStr
      dsimp only
      rw [hop]
      exact .named (.auipc hop)
  | JAL =>
      unfold generateInstructionStr
      dsimp only
      rw [hop]
      exact .named (.jal hop)
  | JALR =>
      unfold generateInstructionStr
      dsimp only
      rw [hop]
      exact .named (.jalr hop)
  | BTYPE => exact listing_branch a hop
  | LOAD => exact listing_load a hop
  | STORE => exact listing_store a hop
  | ITYPE => exact listing_immediate a hop
  | RTYPE => exact listing_register a hop
  | PRIV => exact listing_priv a hop
  | other =>
      unfold generateInstructionStr
      dsimp only
      rw [hop]
      exact .raw hop

-- ==================================================== the texts told apart

/-- No operation is written as a hexadecimal number. -/
theorem text_ne_hexPadded (op : Operation) (n : Nat) :
    op.text ≠ hexPadded 8 n := by
  intro h
  rcases op.text_cases with ⟨-, -, hshort⟩ | ⟨⟨f, g, fs, hf⟩, ht⟩
  · have hlen := le_length_hexPadded 8 n
    rw [← h, String.length_toList] at hlen
    omega
  · have hcomma := comma_mem_row 8 op.mnemonic.name f g fs
    rw [← hf, ← ht, h] at hcomma
    exact notMem_hexPadded (by decide) 8 n hcomma

/-- Nor is the placeholder. -/
theorem placeholder_ne_hexPadded (fields : List String) (n : Nat) :
    row 8 "nan" fields ≠ hexPadded 8 n := by
  intro h
  have hn : 'n' ∈ (row 8 "nan" fields).toList := by
    unfold row padRight
    simp
  rw [h] at hn
  exact notMem_hexPadded (by decide) 8 n hn

namespace Mcu

-- ================================================ statement vocabulary

/-- The machine performs the operation, or one that is written alike. -/
def Performs (s : Mcu L) (op : Operation) : Prop :=
  ∃ op', op.Spells op' ∧ s.executeInstruction = op'.run s

/-- The text names an operation, each that it names is the one performed,
and a jump or a branch that is taken goes to the address printed, if
that is a multiple of 4. -/
structure NamedRight (s : Mcu L) (text : String) : Prop where
  named : ∃ op : Operation, op.text = text
  performs : ∀ op : Operation, op.text = text → s.Performs op
  jump : ∀ rd target, (Operation.jal rd target).text = text →
    target.toNat % 4 = 0 →
    ∃ t, s.executeInstruction = .ok (STATUS_OK, t) ∧ t.pc = target
  branch : ∀ m rs1 rs2 target,
    (Operation.branch m rs1 rs2 target).text = text →
    m.taken (s.rf.read rs1) (s.rf.read rs2) = true →
    target.toNat % 4 = 0 →
    ∃ t, s.executeInstruction = .ok (STATUS_OK, t) ∧ t.pc = target

-- ============================================================== the result

/-- An aligned address is gone to. -/
theorem goTo_aligned {t : Mcu L} {target : U32}
    (h : target.toNat % 4 = 0) :
    Operation.goTo t target
      = (STATUS_OK, { t with nextPc := target, pc := target }) :=
  if_neg (not_not.2 h)

/-- The words that the core rejects are those under an unknown opcode. -/
theorem rejectedAtDecode_iff (hw : s.Fetches w) :
    s.RejectedAtDecode w ↔ opcodeOf w = .other := by
  constructor
  · rintro ⟨hstore, s', hexec⟩
    exact (illegal_cases hw hexec).2.resolve_right fun h => hstore h.1
  · intro hop
    exact ⟨by rw [hop]; decide, s, illegal_of_other_or_rom hw (.inl hop)⟩

/-- What the text names is performed. -/
theorem namedRight_of_decodes {op : Operation} (hw : s.Fetches w)
    (hsync : s.nextPc = s.pc) (h : Decodes w s.pc op) :
    s.NamedRight op.text := by
  have hrun := run_of_decodes hw hsync h
  exact {
    named := ⟨op, rfl⟩
    performs := fun op' htext => ⟨op, Operation.text_inj htext, hrun⟩
    jump := by
      intro rd target htext hal
      cases Operation.text_inj htext with
      | same =>
          rw [hrun]
          exact ⟨_, congrArg Except.ok (goTo_aligned hal), rfl⟩
    branch := by
      intro m rs1 rs2 target htext htaken hal
      cases Operation.text_inj htext with
      | same =>
          have hgo : (Operation.branch m rs1 rs2 target).run s
              = .ok (Operation.goTo s target) :=
            congrArg (fun next => Except.ok (Operation.goTo s next))
              (if_pos htaken)
          rw [hrun, hgo]
          exact ⟨_, congrArg Except.ok (goTo_aligned hal), rfl⟩ }

/-- The disassembler and the core decode alike. The words it lists in
hexadecimal are those that the core rejects, and any other text, but for
the placeholder, names what the core performs. -/
theorem disassembler_agrees (s : Mcu L) (w : U32) (hw : s.Fetches w)
    (hsync : s.nextPc = s.pc) :
    (generateInstructionStr ⟨s.pc, w⟩ = .ok (hexPadded 8 w.toNat)
        ↔ s.RejectedAtDecode w)
      ∧ ∀ text, generateInstructionStr ⟨s.pc, w⟩ = .ok text →
        text ≠ hexPadded 8 w.toNat →
        (∀ fields, text ≠ row 8 "nan" fields) → s.NamedRight text := by
  have hlist := listing w s.pc
  rw [rejectedAtDecode_iff hw]
  generalize generateInstructionStr ⟨s.pc, w⟩ = listed at hlist
  cases hlist with
  | named h =>
      refine ⟨iff_of_false (fun heq => ?_) fun hop => ?_, ?_⟩
      · exact text_ne_hexPadded _ _ (Except.ok.inj heq)
      · exact h.known hop
      · intro text htext _ _
        obtain rfl := Except.ok.inj htext
        exact namedRight_of_decodes hw hsync h
  | placeholder hop fields =>
      refine ⟨iff_of_false (fun heq => ?_) hop, ?_⟩
      · exact placeholder_ne_hexPadded _ _ (Except.ok.inj heq)
      · intro text htext _ hplaceholder
        exact absurd (Except.ok.inj htext).symm (hplaceholder fields)
  | raw hop =>
      refine ⟨iff_of_true rfl hop, ?_⟩
      intro text htext hraw _
      exact absurd (Except.ok.inj htext).symm hraw
  | failed hop e =>
      refine ⟨iff_of_false (fun heq => by cases heq) hop, ?_⟩
      intro text htext
      cases htext

/-- The word of `jal x0, 0` in front of the core is listed as a jump to its
own address, and is one. -/
theorem jump_to_itself_listed :
    let s := program [0x0000006f]
    generateInstructionStr ⟨s.pc, 0x0000006f⟩
        = .ok "jal     zero,80000000"
      ∧ s.NamedRight "jal     zero,80000000" := by
  intro s
  have hw : s.Fetches 0x0000006f := by
    unfold Fetches
    decide +kernel
  have hlist : generateInstructionStr ⟨s.pc, 0x0000006f⟩
      = .ok "jal     zero,80000000" := by decide +kernel
  refine ⟨hlist, (disassembler_agrees s 0x0000006f hw rfl).2 _ hlist
    (by decide +kernel) fun fields h => ?_⟩
  have hhead := congrArg (fun t : String => t.toList.head?) h
  simp [row, padRight] at hhead

end Mcu

end T89Emu
