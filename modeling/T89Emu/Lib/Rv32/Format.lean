/-
Instruction formats: how an instruction word is put together from its
fields.

A word is written as the manual draws it, most significant field first,
with the bits of the immediate where the format scatters them. The
immediate is given in full: the offset of a jump has 21 bits and that of
a branch 13, the lowest of which the word does not hold.

Taking a word apart gives its fields back, whatever the others are.
-/
import T89Emu.Lib.Rv32

namespace Rv32

-- ============================================================ the formats

section Formats

variable (funct7 : BitVec 7) (funct3 : BitVec 3) (rs2 rs1 rd : BitVec 5)
  (opcode : BitVec 7)

/-- `imm[11:0] rs1 funct3 rd opcode`. -/
def iWord (imm : BitVec 12) : BitVec 32 :=
  imm ++ rs1 ++ funct3 ++ rd ++ opcode

/-- `funct7 shamt rs1 funct3 rd opcode`: the shifts by a constant. -/
def shiftWord (shamt : BitVec 5) : BitVec 32 :=
  funct7 ++ shamt ++ rs1 ++ funct3 ++ rd ++ opcode

/-- `imm[11:5] rs2 rs1 funct3 imm[4:0] opcode`. -/
def sWord (imm : BitVec 12) : BitVec 32 :=
  imm.extractLsb' 5 7 ++ rs2 ++ rs1 ++ funct3 ++ imm.extractLsb' 0 5
    ++ opcode

/-- `imm[12|10:5] rs2 rs1 funct3 imm[4:1|11] opcode`. -/
def bWord (imm : BitVec 13) : BitVec 32 :=
  imm.extractLsb' 12 1 ++ imm.extractLsb' 5 6 ++ rs2 ++ rs1 ++ funct3
    ++ imm.extractLsb' 1 4 ++ imm.extractLsb' 11 1 ++ opcode

/-- `imm[31:12] rd opcode`. -/
def uWord (imm : BitVec 32) : BitVec 32 :=
  imm.extractLsb' 12 20 ++ rd ++ opcode

/-- `imm[20|10:1|11|19:12] rd opcode`. -/
def jWord (imm : BitVec 21) : BitVec 32 :=
  imm.extractLsb' 20 1 ++ imm.extractLsb' 1 10 ++ imm.extractLsb' 11 1
    ++ imm.extractLsb' 12 8 ++ rd ++ opcode

end Formats

/-- `funct7 rs2 rs1 funct3 rd opcode`: where a shift has its amount, an
operation on registers names the second one. -/
def rWord (funct7 : BitVec 7) (funct3 : BitVec 3) (rs2 rs1 rd : BitVec 5)
    (opcode : BitVec 7) : BitVec 32 :=
  shiftWord funct7 funct3 rs1 rd opcode rs2

-- ============================================================ the operands

section Operands

variable (w : BitVec 32)

/-- The register numbers. -/
def rd : BitVec 5 := w.extractLsb' 7 5
def rs1 : BitVec 5 := w.extractLsb' 15 5
def rs2 : BitVec 5 := w.extractLsb' 20 5

/-- The 12 offset bits of a branch, in the order of their weight. -/
def bField : BitVec 12 :=
  w.extractLsb' 31 1 ++ w.extractLsb' 7 1 ++ w.extractLsb' 25 6
    ++ w.extractLsb' 8 4

/-- The offset of a branch: a signed multiple of two bytes. -/
def bImmediate : BitVec 32 := (bField w).signExtend 32 <<< 1

/-- The 12 offset bits of a store. -/
def sField : BitVec 12 := w.extractLsb' 25 7 ++ w.extractLsb' 7 5

/-- The offset of a store: 12 bits, signed. -/
def sImmediate : BitVec 32 := (sField w).signExtend 32

/-- The immediate of LUI and AUIPC: the upper 20 bits. -/
def uImmediate : BitVec 32 := w.extractLsb' 12 20 ++ 0#12

/-- The shift amount of the shifts by a constant. -/
def shamt : BitVec 32 := (w.extractLsb' 20 5).setWidth 32

/-- The CSR address. -/
def csrAddress : BitVec 32 := (w.extractLsb' 20 12).setWidth 32

end Operands

-- ========================================================== taking apart

section TakingApart

variable (funct7 : BitVec 7) (funct3 : BitVec 3) (rs2 rs1 rd : BitVec 5)
  (opcode : BitVec 7)

@[simp] theorem opcode_iWord (imm : BitVec 12) :
    Rv32.opcode (iWord funct3 rs1 rd opcode imm) = opcode :=
  BitVec.extractLsb'_append_eq_right

@[simp] theorem opcode_shiftWord (shamt : BitVec 5) :
    Rv32.opcode (shiftWord funct7 funct3 rs1 rd opcode shamt) = opcode :=
  BitVec.extractLsb'_append_eq_right

@[simp] theorem opcode_sWord (imm : BitVec 12) :
    Rv32.opcode (sWord funct3 rs2 rs1 opcode imm) = opcode :=
  BitVec.extractLsb'_append_eq_right

@[simp] theorem opcode_bWord (imm : BitVec 13) :
    Rv32.opcode (bWord funct3 rs2 rs1 opcode imm) = opcode :=
  BitVec.extractLsb'_append_eq_right

@[simp] theorem opcode_uWord (imm : BitVec 32) :
    Rv32.opcode (uWord rd opcode imm) = opcode :=
  BitVec.extractLsb'_append_eq_right

@[simp] theorem opcode_jWord (imm : BitVec 21) :
    Rv32.opcode (jWord rd opcode imm) = opcode :=
  BitVec.extractLsb'_append_eq_right

@[simp] theorem funct3_iWord (imm : BitVec 12) :
    Rv32.funct3 (iWord funct3 rs1 rd opcode imm) = funct3 := by
  unfold Rv32.funct3 iWord
  simp (disch := decide) only [BitVec.extractLsb'_append_eq_of_le]
  exact BitVec.extractLsb'_append_eq_right

@[simp] theorem funct3_shiftWord (shamt : BitVec 5) :
    Rv32.funct3 (shiftWord funct7 funct3 rs1 rd opcode shamt)
      = funct3 := by
  unfold Rv32.funct3 shiftWord
  simp (disch := decide) only [BitVec.extractLsb'_append_eq_of_le]
  exact BitVec.extractLsb'_append_eq_right

@[simp] theorem funct3_sWord (imm : BitVec 12) :
    Rv32.funct3 (sWord funct3 rs2 rs1 opcode imm) = funct3 := by
  unfold Rv32.funct3 sWord
  simp (disch := decide) only [BitVec.extractLsb'_append_eq_of_le]
  exact BitVec.extractLsb'_append_eq_right

@[simp] theorem funct3_bWord (imm : BitVec 13) :
    Rv32.funct3 (bWord funct3 rs2 rs1 opcode imm) = funct3 := by
  unfold Rv32.funct3 bWord
  simp (disch := decide) only [BitVec.extractLsb'_append_eq_of_le]
  exact BitVec.extractLsb'_append_eq_right

@[simp] theorem rd_iWord (imm : BitVec 12) :
    Rv32.rd (iWord funct3 rs1 rd opcode imm) = rd := by
  unfold Rv32.rd iWord
  simp (disch := decide) only [BitVec.extractLsb'_append_eq_of_le]
  exact BitVec.extractLsb'_append_eq_right

@[simp] theorem rd_shiftWord (shamt : BitVec 5) :
    Rv32.rd (shiftWord funct7 funct3 rs1 rd opcode shamt) = rd := by
  unfold Rv32.rd shiftWord
  simp (disch := decide) only [BitVec.extractLsb'_append_eq_of_le]
  exact BitVec.extractLsb'_append_eq_right

@[simp] theorem rd_uWord (imm : BitVec 32) :
    Rv32.rd (uWord rd opcode imm) = rd := by
  unfold Rv32.rd uWord
  simp (disch := decide) only [BitVec.extractLsb'_append_eq_of_le]
  exact BitVec.extractLsb'_append_eq_right

@[simp] theorem rd_jWord (imm : BitVec 21) :
    Rv32.rd (jWord rd opcode imm) = rd := by
  unfold Rv32.rd jWord
  simp (disch := decide) only [BitVec.extractLsb'_append_eq_of_le]
  exact BitVec.extractLsb'_append_eq_right

@[simp] theorem rs1_iWord (imm : BitVec 12) :
    Rv32.rs1 (iWord funct3 rs1 rd opcode imm) = rs1 := by
  unfold Rv32.rs1 iWord
  simp (disch := decide) only [BitVec.extractLsb'_append_eq_of_le]
  exact BitVec.extractLsb'_append_eq_right

@[simp] theorem rs1_shiftWord (shamt : BitVec 5) :
    Rv32.rs1 (shiftWord funct7 funct3 rs1 rd opcode shamt) = rs1 := by
  unfold Rv32.rs1 shiftWord
  simp (disch := decide) only [BitVec.extractLsb'_append_eq_of_le]
  exact BitVec.extractLsb'_append_eq_right

@[simp] theorem rs1_sWord (imm : BitVec 12) :
    Rv32.rs1 (sWord funct3 rs2 rs1 opcode imm) = rs1 := by
  unfold Rv32.rs1 sWord
  simp (disch := decide) only [BitVec.extractLsb'_append_eq_of_le]
  exact BitVec.extractLsb'_append_eq_right

@[simp] theorem rs1_bWord (imm : BitVec 13) :
    Rv32.rs1 (bWord funct3 rs2 rs1 opcode imm) = rs1 := by
  unfold Rv32.rs1 bWord
  simp (disch := decide) only [BitVec.extractLsb'_append_eq_of_le]
  exact BitVec.extractLsb'_append_eq_right

@[simp] theorem rs2_sWord (imm : BitVec 12) :
    Rv32.rs2 (sWord funct3 rs2 rs1 opcode imm) = rs2 := by
  unfold Rv32.rs2 sWord
  simp (disch := decide) only [BitVec.extractLsb'_append_eq_of_le]
  exact BitVec.extractLsb'_append_eq_right

@[simp] theorem rs2_bWord (imm : BitVec 13) :
    Rv32.rs2 (bWord funct3 rs2 rs1 opcode imm) = rs2 := by
  unfold Rv32.rs2 bWord
  simp (disch := decide) only [BitVec.extractLsb'_append_eq_of_le]
  exact BitVec.extractLsb'_append_eq_right

@[simp] theorem rs2_shiftWord (shamt : BitVec 5) :
    Rv32.rs2 (shiftWord funct7 funct3 rs1 rd opcode shamt) = shamt := by
  unfold Rv32.rs2 shiftWord
  simp (disch := decide) only [BitVec.extractLsb'_append_eq_of_le]
  exact BitVec.extractLsb'_append_eq_right

@[simp] theorem funct7_shiftWord (shamt : BitVec 5) :
    Rv32.funct7 (shiftWord funct7 funct3 rs1 rd opcode shamt)
      = funct7 := by
  unfold Rv32.funct7 shiftWord
  simp (disch := decide) only [BitVec.extractLsb'_append_eq_of_le]
  exact BitVec.extractLsb'_eq_self

/-- An offset in units of two bytes, scaled and extended, is the offset
extended. -/
theorem signExtend_half {n m : Nat} (imm : BitVec (n + 1))
    (heven : imm.getLsbD 0 = false) (hn : 0 < n) :
    (imm.extractLsb' 1 n).signExtend m <<< 1 = imm.signExtend m := by
  apply BitVec.eq_of_getLsbD_eq
  intro i hi
  rw [BitVec.getLsbD_shiftLeft, BitVec.getLsbD_signExtend,
    BitVec.getLsbD_signExtend, BitVec.getLsbD_extractLsb',
    BitVec.msb_eq_getLsbD_last, BitVec.msb_eq_getLsbD_last,
    BitVec.getLsbD_extractLsb']
  cases i with
  | zero =>
      rw [heven]
      simp
  | succ i =>
      have hsign : 1 + (n - 1) = n + 1 - 1 := by omega
      rw [hsign]
      by_cases hin : i < n
      · simp [hi, hin, show i < m by omega, Nat.add_comm 1 i]
      · simp [hi, hin, show i < m by omega, show n - 1 < n by omega]

/-- The offset of JAL. -/
theorem jImmediate_jWord (imm : BitVec 21)
    (heven : imm.getLsbD 0 = false) :
    jImmediate (jWord rd opcode imm) = imm.signExtend 32 := by
  have hfield : jField (jWord rd opcode imm) = imm.extractLsb' 1 20 := by
    unfold jField jWord
    simp (disch := decide) only [BitVec.extractLsb'_append_eq_of_le,
      BitVec.extractLsb'_append_eq_of_add_le, BitVec.extractLsb'_eq_self,
      Nat.reduceSub]
    -- the pieces are adjacent in the immediate
    rw [BitVec.extractLsb'_append_extractLsb'_eq_extractLsb'
        (show 20 = 12 + 8 from rfl),
      BitVec.extractLsb'_append_extractLsb'_eq_extractLsb'
        (show 12 = 11 + 1 from rfl),
      BitVec.extractLsb'_append_extractLsb'_eq_extractLsb'
        (show 11 = 1 + 10 from rfl)]
  unfold jImmediate
  rw [hfield, signExtend_half imm heven (by decide)]

/-- The offset of a branch. -/
theorem bImmediate_bWord (imm : BitVec 13)
    (heven : imm.getLsbD 0 = false) :
    bImmediate (bWord funct3 rs2 rs1 opcode imm) = imm.signExtend 32 := by
  have hfield : bField (bWord funct3 rs2 rs1 opcode imm)
      = imm.extractLsb' 1 12 := by
    unfold bField bWord
    simp (disch := decide) only [BitVec.extractLsb'_append_eq_of_le,
      BitVec.extractLsb'_append_eq_of_add_le, BitVec.extractLsb'_eq_self,
      Nat.reduceSub]
    rw [BitVec.extractLsb'_append_extractLsb'_eq_extractLsb'
        (show 12 = 11 + 1 from rfl),
      BitVec.extractLsb'_append_extractLsb'_eq_extractLsb'
        (show 11 = 5 + 6 from rfl),
      BitVec.extractLsb'_append_extractLsb'_eq_extractLsb'
        (show 5 = 1 + 4 from rfl)]
  unfold bImmediate
  rw [hfield, signExtend_half imm heven (by decide)]

/-- The offset of a store. -/
theorem sImmediate_sWord (imm : BitVec 12) :
    sImmediate (sWord funct3 rs2 rs1 opcode imm) = imm.signExtend 32 := by
  have hfield : sField (sWord funct3 rs2 rs1 opcode imm) = imm := by
    unfold sField sWord
    simp (disch := decide) only [BitVec.extractLsb'_append_eq_of_le,
      BitVec.extractLsb'_append_eq_of_add_le, BitVec.extractLsb'_eq_self,
      Nat.reduceSub]
    rw [BitVec.extractLsb'_append_extractLsb'_eq_extractLsb'
      (show 5 = 0 + 5 from rfl)]
    exact BitVec.extractLsb'_eq_self
  unfold sImmediate
  rw [hfield]

/-- The upper 20 bits of the word, as they are put in. -/
theorem uImmediate_uWord (imm : BitVec 32) (hlow : imm.setWidth 12 = 0#12) :
    uImmediate (uWord rd opcode imm) = imm := by
  unfold uImmediate uWord
  simp (disch := decide) only [BitVec.extractLsb'_append_eq_of_le,
    BitVec.extractLsb'_eq_self, Nat.reduceSub]
  rw [← hlow, BitVec.setWidth_eq_extractLsb' (by decide)]
  rw [BitVec.extractLsb'_append_extractLsb'_eq_extractLsb'
    (show 12 = 0 + 12 from rfl)]
  exact BitVec.extractLsb'_eq_self

/-- The upper 12 bits. -/
theorem field_iWord (imm : BitVec 12) :
    (iWord funct3 rs1 rd opcode imm).extractLsb' 20 12 = imm := by
  unfold iWord
  simp (disch := decide) only [BitVec.extractLsb'_append_eq_of_le,
    BitVec.extractLsb'_eq_self, Nat.reduceSub]

/-- The immediate of JALR, the loads and the immediate operations. -/
theorem iImmediate_iWord (imm : BitVec 12) :
    iImmediate (iWord funct3 rs1 rd opcode imm) = imm.signExtend 32 := by
  unfold iImmediate
  rw [field_iWord]

/-- The CSR address of a CSR instruction. -/
theorem csrAddress_iWord (imm : BitVec 12) :
    csrAddress (iWord funct3 rs1 rd opcode imm) = imm.setWidth 32 := by
  unfold csrAddress
  rw [field_iWord]

/-- The shift amount. -/
theorem shamt_shiftWord (amount : BitVec 5) :
    shamt (shiftWord funct7 funct3 rs1 rd opcode amount)
      = amount.setWidth 32 := by
  unfold shamt shiftWord
  simp (disch := decide) only [BitVec.extractLsb'_append_eq_of_le,
    BitVec.extractLsb'_append_eq_of_add_le, BitVec.extractLsb'_eq_self,
    Nat.reduceSub]

end TakingApart

end Rv32
