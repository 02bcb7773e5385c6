/-
The immediate generator against the instruction formats.

Each opcode's arm computes the operand that its format defines
(`getImmediate_jal` and the lemmas after it): the masks and shifts pick
the bits of the field, and the three idioms of sign extension are one
function. With the formats' own laws, decoding inverts encoding
(`getImmediate_inverts`).
-/
import T89Emu.Core.Proofs.Decode
import T89Emu.Lib.Rv32.Format

namespace T89Emu

-- =========================================================== arm by arm

variable {w : U32}

/-- The core decodes the immediate of LUI and AUIPC. -/
theorem getImmediate_u (h : opcodeOf w = .LUI ∨ opcodeOf w = .AUIPC) :
    ImmediateGenerator.getImmediate w = Rv32.uImmediate w := by
  have hmask : w &&& 0xfffff000 = Rv32.uImmediate w := by
    apply BitVec.eq_of_getLsbD_eq
    intro i hi
    simp only [Rv32.uImmediate, BitVec.getLsbD_and, BitVec.getLsbD_append,
      BitVec.getLsbD_extractLsb']
    interval_cases i <;> simp
  rw [← hmask]
  unfold ImmediateGenerator.getImmediate
  rcases h with h | h
  · rw [h]
  · rw [h]

/-- The core decodes the offset of a branch. -/
theorem getImmediate_b (h : opcodeOf w = .BTYPE) :
    ImmediateGenerator.getImmediate w = Rv32.bImmediate w := by
  have hraw : ((w >>> 20) &&& 0x0000800) ||| ((w <<< 3) &&& 0x0000400)
        ||| ((w >>> 21) &&& 0x00003f0) ||| ((w >>> 8) &&& 0x000000f)
      = (Rv32.bField w).setWidth 32 := by
    apply BitVec.eq_of_getLsbD_eq
    intro i hi
    simp only [Rv32.bField, BitVec.getLsbD_or, BitVec.getLsbD_and,
      BitVec.getLsbD_ushiftRight, BitVec.getLsbD_shiftLeft,
      BitVec.getLsbD_setWidth, BitVec.getLsbD_append,
      BitVec.getLsbD_extractLsb']
    interval_cases i <;> simp
  have hsign : ((Rv32.bField w).setWidth 32).getLsbD 11
      = (Rv32.bField w).getLsbD 11 := by simp
  unfold ImmediateGenerator.getImmediate Rv32.bImmediate
  rw [h]
  dsimp only
  rw [hraw, signExtend_eq_ite _ (by decide)]
  simp only [shiftRight_and_one_iff, hsign]
  rfl

/-- The core decodes the offset of a store: the two parts of the field do
not overlap, so their sum is their union. -/
theorem getImmediate_s (h : opcodeOf w = .STORE) :
    ImmediateGenerator.getImmediate w = Rv32.sImmediate w := by
  have hdisjoint : ((w >>> 20) &&& (0b1111111 <<< 5))
      &&& ((w >>> 7) &&& 0b11111) = 0 := by
    apply BitVec.eq_of_getLsbD_eq
    intro i hi
    simp only [BitVec.getLsbD_and]
    interval_cases i <;> simp
  have hraw : ((w >>> 20) &&& (0b1111111 <<< 5)) + ((w >>> 7) &&& 0b11111)
      = (Rv32.sField w).setWidth 32 := by
    rw [BitVec.add_eq_or_of_and_eq_zero _ _ hdisjoint]
    apply BitVec.eq_of_getLsbD_eq
    intro i hi
    simp only [Rv32.sField, BitVec.getLsbD_or, BitVec.getLsbD_and,
      BitVec.getLsbD_ushiftRight, BitVec.getLsbD_setWidth,
      BitVec.getLsbD_append, BitVec.getLsbD_extractLsb']
    interval_cases i <;> simp
  have hsign : (w.extractLsb' 20 12).getLsbD 11
      = (Rv32.sField w).getLsbD 11 := by
    simp only [Rv32.sField, BitVec.getLsbD_append,
      BitVec.getLsbD_extractLsb']
    simp
  unfold ImmediateGenerator.getImmediate Rv32.sImmediate
  rw [h]
  dsimp only
  rw [hraw, signExtend_eq_ite _ (by decide)]
  simp only [shiftRight_ne_zero_iff, hsign]
  rfl

/-- The immediate operations have the immediate of the loads, the shifts
apart. -/
theorem getImmediate_itype (h : opcodeOf w = .ITYPE)
    (hshift : ¬ (funct3 w = 1 ∨ funct3 w = 5)) :
    ImmediateGenerator.getImmediate w = Rv32.iImmediate w := by
  unfold ImmediateGenerator.getImmediate Rv32.iImmediate
  rw [h, signExtend_eq_ite _ (by decide)]
  dsimp only
  rw [if_neg hshift]
  simp only [shiftRight_ne_zero_iff]
  rw [shiftRight_twenty]
  rfl

/-- Of a shift only the amount is left of it. -/
theorem getImmediate_shift (h : opcodeOf w = .ITYPE)
    (hshift : funct3 w = 1 ∨ funct3 w = 5) :
    ImmediateGenerator.getImmediate w = Rv32.shamt w := by
  unfold ImmediateGenerator.getImmediate Rv32.shamt
  rw [h]
  dsimp only
  rw [if_pos hshift]
  apply BitVec.eq_of_getLsbD_eq
  intro i hi
  split
  · simp only [BitVec.getLsbD_and, BitVec.getLsbD_or,
      BitVec.getLsbD_ushiftRight, BitVec.getLsbD_setWidth,
      BitVec.getLsbD_extractLsb']
    interval_cases i <;> simp
  · simp only [BitVec.getLsbD_and, BitVec.getLsbD_ushiftRight,
      BitVec.getLsbD_setWidth, BitVec.getLsbD_extractLsb']
    interval_cases i <;> simp

/-- The core decodes the CSR address. -/
theorem getImmediate_csr (h : opcodeOf w = .PRIV) :
    ImmediateGenerator.getImmediate w = Rv32.csrAddress w := by
  unfold ImmediateGenerator.getImmediate Rv32.csrAddress
  rw [h, shiftRight_twenty]
  apply BitVec.eq_of_getLsbD_eq
  intro i hi
  interval_cases i <;> simp

-- ============================================================ the formats

variable (funct7 : BitVec 7) (f : BitVec 3) (rs2 rs1 rd : BitVec 5)

/-- What the opcode `switch` sees of a word with a known opcode. -/
theorem opcodeOf_eq {w : U32} {o : BitVec 7} {op : Opcode}
    (h : Rv32.opcode w = o) (ho : opcodeOf (o.setWidth 32) = op) :
    opcodeOf w = op :=
  (opcodeOf_of_opcode h).trans ho

/-- Decoding inverts encoding: of the word that the instruction set
assigns, the immediate generator returns the immediate. Offsets and
immediates come sign-extended, shift amounts and CSR addresses
zero-extended, and those of LUI and AUIPC in the upper 20 bits; the
other fields of the word do not matter. -/
theorem getImmediate_inverts :
    (∀ (o : BitVec 7) (imm : U32), o = Rv32.LUI ∨ o = Rv32.AUIPC →
        imm.setWidth 12 = 0#12 →
        ImmediateGenerator.getImmediate (Rv32.uWord rd o imm) = imm)
      ∧ (∀ imm : BitVec 21, imm.getLsbD 0 = false →
        ImmediateGenerator.getImmediate (Rv32.jWord rd Rv32.JAL imm)
          = imm.signExtend 32)
      ∧ (∀ (o : BitVec 7) (imm : BitVec 12),
        o = Rv32.JALR ∨ o = Rv32.LOAD
          ∨ o = Rv32.OP_IMM ∧ ¬ (f = 1 ∨ f = 5) →
        ImmediateGenerator.getImmediate (Rv32.iWord f rs1 rd o imm)
          = imm.signExtend 32)
      ∧ (∀ imm : BitVec 13, imm.getLsbD 0 = false →
        ImmediateGenerator.getImmediate
            (Rv32.bWord f rs2 rs1 Rv32.BRANCH imm)
          = imm.signExtend 32)
      ∧ (∀ imm : BitVec 12,
        ImmediateGenerator.getImmediate
            (Rv32.sWord f rs2 rs1 Rv32.STORE imm)
          = imm.signExtend 32)
      ∧ (∀ amount : BitVec 5, f = 1 ∨ f = 5 →
        ImmediateGenerator.getImmediate
            (Rv32.shiftWord funct7 f rs1 rd Rv32.OP_IMM amount)
          = amount.setWidth 32)
      ∧ ∀ addr : BitVec 12,
        ImmediateGenerator.getImmediate
            (Rv32.iWord f rs1 rd Rv32.SYSTEM addr)
          = addr.setWidth 32 := by
  refine ⟨fun o imm ho hlow => ?_, fun imm heven => ?_,
    fun o imm ho => ?_, fun imm heven => ?_, fun imm => ?_,
    fun amount hf => ?_, fun addr => ?_⟩
  · have hop : opcodeOf (Rv32.uWord rd o imm) = .LUI
        ∨ opcodeOf (Rv32.uWord rd o imm) = .AUIPC := by
      rcases ho with rfl | rfl
      · exact .inl (opcodeOf_eq (Rv32.opcode_uWord rd _ imm) (by decide))
      · exact .inr (opcodeOf_eq (Rv32.opcode_uWord rd _ imm) (by decide))
    rw [getImmediate_u hop, Rv32.uImmediate_uWord rd o imm hlow]
  · have hop : opcodeOf (Rv32.jWord rd Rv32.JAL imm) = .JAL :=
      opcodeOf_eq (Rv32.opcode_jWord rd _ imm) (by decide)
    rw [getImmediate_jal hop, Rv32.jImmediate_jWord rd _ imm heven]
  · have hfield := Rv32.opcode_iWord f rs1 rd o imm
    rw [← Rv32.iImmediate_iWord f rs1 rd o imm]
    rcases ho with rfl | rfl | ⟨rfl, hf⟩
    · exact getImmediate_i (.inl (opcodeOf_eq hfield (by decide)))
    · exact getImmediate_i (.inr (opcodeOf_eq hfield (by decide)))
    · refine getImmediate_itype (opcodeOf_eq hfield (by decide)) ?_
      have hfunct : funct3 (Rv32.iWord f rs1 rd Rv32.OP_IMM imm) = f :=
        Rv32.funct3_iWord f rs1 rd _ imm
      rw [hfunct]
      exact hf
  · have hop : opcodeOf (Rv32.bWord f rs2 rs1 Rv32.BRANCH imm) = .BTYPE :=
      opcodeOf_eq (Rv32.opcode_bWord f rs2 rs1 _ imm) (by decide)
    rw [getImmediate_b hop, Rv32.bImmediate_bWord f rs2 rs1 _ imm heven]
  · have hop : opcodeOf (Rv32.sWord f rs2 rs1 Rv32.STORE imm) = .STORE :=
      opcodeOf_eq (Rv32.opcode_sWord f rs2 rs1 _ imm) (by decide)
    rw [getImmediate_s hop, Rv32.sImmediate_sWord]
  · have hop : opcodeOf (Rv32.shiftWord funct7 f rs1 rd Rv32.OP_IMM amount)
        = .ITYPE :=
      opcodeOf_eq (Rv32.opcode_shiftWord funct7 f rs1 rd _ amount)
        (by decide)
    have hfunct : funct3
        (Rv32.shiftWord funct7 f rs1 rd Rv32.OP_IMM amount) = f :=
      Rv32.funct3_shiftWord funct7 f rs1 rd _ amount
    rw [getImmediate_shift hop (by rw [hfunct]; exact hf),
      Rv32.shamt_shiftWord]
  · have hop : opcodeOf (Rv32.iWord f rs1 rd Rv32.SYSTEM addr) = .PRIV :=
      opcodeOf_eq (Rv32.opcode_iWord f rs1 rd _ addr) (by decide)
    rw [getImmediate_csr hop, Rv32.csrAddress_iWord]

/-- A branch back by 4096 bytes, the farthest there is, and a jump back by
2^20. -/
theorem farthest_offsets_decoded :
    ImmediateGenerator.getImmediate
        (Rv32.bWord 0 2 1 Rv32.BRANCH 0x1000) = 0xfffff000
      ∧ ImmediateGenerator.getImmediate
        (Rv32.jWord 1 Rv32.JAL 0x100000) = 0xfff00000 := by
  obtain ⟨-, hj, -, hb, -⟩ := getImmediate_inverts 0 0 2 1 1
  exact ⟨hb 0x1000 (by decide), hj 0x100000 (by decide)⟩

end T89Emu
