/-
The control and status registers (Csr.cpp).

The source keeps them in an `unordered_map` whose `operator[]` yields 0
for an address it has not seen, so a `Csr` is a total function from
addresses to values. The constructor's registers all start at 0, which
is also what an absent address reads as: `Csr.reset` is constantly 0.
-/
import Mathlib.Logic.Basic
import T89Emu.Architecture

namespace T89Emu

-- ======================================================== CSR addresses

def CSR_MSTATUS : U32 := 0x300
def CSR_MISA : U32 := 0x301
def CSR_MIE : U32 := 0x304
def CSR_MTVEC : U32 := 0x305
def CSR_MSCRATCH : U32 := 0x340
def CSR_MEPC : U32 := 0x341
def CSR_MCAUSE : U32 := 0x342
def CSR_MTVAL : U32 := 0x343
def CSR_MIP : U32 := 0x344
def CSR_MVENDORID : U32 := 0xf11
def CSR_MARCHID : U32 := 0xf12
def CSR_MIMPID : U32 := 0xf13
def CSR_MHARTID : U32 := 0xf14

-- ========================================================= bit positions

def MSTATUS_MIE_MASK : Nat := 3
def MSTATUS_MPIE_MASK : Nat := 7
def MSTATUS_MPP_MASK : Nat := 11

def MIE_MTIE_MASK : Nat := 7
def MIE_MSIE_MASK : Nat := 3

def MIP_MTIP_MASK : Nat := 7
def MIP_MSIP_MASK : Nat := 3

def MACHINE_MODE : U32 := 0b11

-- ============================================================ the file

/-- The register map. -/
structure Csr where
  registers : U32 → U32

namespace Csr

/-- The registers that the constructor names. -/
def constructed : List U32 :=
  [CSR_MISA, CSR_MVENDORID, CSR_MARCHID, CSR_MIMPID, CSR_MHARTID,
    CSR_MSTATUS, CSR_MTVEC, CSR_MIE, CSR_MIP, CSR_MCAUSE, CSR_MEPC,
    CSR_MSCRATCH, CSR_MTVAL]

/-- `Csr::Csr`. -/
def reset : Csr := ⟨fun _ => 0⟩

variable (csr : Csr)

def readCsr (address : U32) : U32 := csr.registers address

def writeCsr (address data : U32) : Csr :=
  ⟨fun a => if a = address then data else csr.registers a⟩

/-- `registers[address] |= (1 << bit)`, the shape of the bit setters. -/
def setBit (address : U32) (bit : Nat) : Csr :=
  csr.writeCsr address (csr.readCsr address ||| (1#32 <<< bit))

/-- `registers[address] &= ~(1 << bit)`, the shape of the bit
resetters. -/
def resetBit (address : U32) (bit : Nat) : Csr :=
  csr.writeCsr address (csr.readCsr address &&& ~~~(1#32 <<< bit))

/-- `(registers[address] >> bit) & 0b1`, the shape of the bit
getters. -/
def getBit (address : U32) (bit : Nat) : U32 :=
  (csr.readCsr address >>> bit) &&& 0b1

def setMie : Csr := csr.setBit CSR_MSTATUS MSTATUS_MIE_MASK
def setMpie : Csr := csr.setBit CSR_MSTATUS MSTATUS_MPIE_MASK
def resetMie : Csr := csr.resetBit CSR_MSTATUS MSTATUS_MIE_MASK

def setMpp (mask : U32) : Csr :=
  csr.writeCsr CSR_MSTATUS
    (csr.readCsr CSR_MSTATUS ||| ((mask &&& 0b11) <<< MSTATUS_MPP_MASK))

def setMtip : Csr := csr.setBit CSR_MIP MIP_MTIP_MASK
def resetMtip : Csr := csr.resetBit CSR_MIP MIP_MTIP_MASK
def setMsip : Csr := csr.setBit CSR_MIP MIP_MSIP_MASK

def getMie : U32 := csr.getBit CSR_MSTATUS MSTATUS_MIE_MASK
def getMpie : U32 := csr.getBit CSR_MSTATUS MSTATUS_MPIE_MASK
def getMtie : U32 := csr.getBit CSR_MIE MIE_MTIE_MASK
def getMsie : U32 := csr.getBit CSR_MIE MIE_MSIE_MASK
def getMtip : U32 := csr.getBit CSR_MIP MIP_MTIP_MASK
def getMsip : U32 := csr.getBit CSR_MIP MIP_MSIP_MASK

def setMepc (mepc : U32) : Csr := csr.writeCsr CSR_MEPC mepc
def setMcause (mcause : U32) : Csr := csr.writeCsr CSR_MCAUSE mcause
def getMepc : U32 := csr.readCsr CSR_MEPC
def getMtvec : U32 := csr.readCsr CSR_MTVEC

-- ============================================== reading after writing

/-- A CSR reads as it was written last. -/
@[simp] theorem readCsr_writeCsr_self (a v : U32) :
    (csr.writeCsr a v).readCsr a = v := if_pos rfl

/-- The others read as they were. -/
theorem readCsr_writeCsr_of_ne {a b : U32} (v : U32) (h : b ≠ a) :
    (csr.writeCsr a v).readCsr b = csr.readCsr b := if_neg h

theorem readCsr_writeCsr (a b v : U32) :
    (csr.writeCsr a v).readCsr b = if b = a then v else csr.readCsr b :=
  rfl

/-- Two register files that read alike everywhere are equal. -/
theorem ext_readCsr {csr csr' : Csr}
    (h : ∀ a, csr.readCsr a = csr'.readCsr a) : csr = csr' := by
  cases csr
  cases csr'
  congr
  exact funext h

/-- Of two writes to one register the second one counts. -/
theorem writeCsr_writeCsr (a u v : U32) :
    (csr.writeCsr a u).writeCsr a v = csr.writeCsr a v := by
  refine ext_readCsr fun b => ?_
  rw [readCsr_writeCsr, readCsr_writeCsr, readCsr_writeCsr]
  split
  · rfl
  · rfl

/-- Writing back what a register already holds changes nothing. -/
theorem writeCsr_eq_self_iff (a v : U32) :
    csr.writeCsr a v = csr ↔ csr.readCsr a = v := by
  constructor
  · intro h
    rw [← h, readCsr_writeCsr_self]
  · intro h
    refine ext_readCsr fun b => ?_
    rw [readCsr_writeCsr]
    split
    · next hb => rw [← h, hb]
    · rfl

-- =============================================================== bits

/-- A getter delivers its bit as a number. -/
theorem getBit_eq (a : U32) (bit : Nat) :
    csr.getBit a bit
      = (BitVec.ofBool ((csr.readCsr a).getLsbD bit)).setWidth 32 := by
  apply BitVec.eq_of_getLsbD_eq
  intro i hi
  unfold getBit
  rw [BitVec.getLsbD_and, BitVec.getLsbD_ushiftRight,
    BitVec.getLsbD_setWidth, BitVec.getLsbD_ofBool]
  cases i with
  | zero => simp
  | succ i => simp

/-- As a truth value, a getter is its bit. -/
theorem getBit_ne_zero_iff (a : U32) (bit : Nat) :
    csr.getBit a bit ≠ 0 ↔ (csr.readCsr a).getLsbD bit = true := by
  rw [getBit_eq]
  cases (csr.readCsr a).getLsbD bit
  · decide
  · decide

/-- A bit reads 1 exactly if it is set. -/
theorem getBit_eq_one_iff (a : U32) (bit : Nat) :
    csr.getBit a bit = 1 ↔ (csr.readCsr a).getLsbD bit = true := by
  rw [getBit_eq]
  cases (csr.readCsr a).getLsbD bit
  · decide
  · decide

theorem getBit_ne_zero_iff_eq_one (a : U32) (bit : Nat) :
    csr.getBit a bit ≠ 0 ↔ csr.getBit a bit = 1 :=
  (csr.getBit_ne_zero_iff a bit).trans (csr.getBit_eq_one_iff a bit).symm

/-- A getter answers 0 or 1. -/
theorem getBit_cases (a : U32) (bit : Nat) :
    csr.getBit a bit = 0 ∨ csr.getBit a bit = 1 := by
  by_cases h : csr.getBit a bit = 0
  · exact .inl h
  · exact .inr ((csr.getBit_ne_zero_iff_eq_one a bit).1 h)

theorem getBit_eq_zero_iff_ne_one (a : U32) (bit : Nat) :
    csr.getBit a bit = 0 ↔ ¬ csr.getBit a bit = 1 := by
  rw [← csr.getBit_ne_zero_iff_eq_one, ne_eq, not_not]

/-- And it reads 0 if it is not. -/
theorem getBit_eq_zero_iff (a : U32) (bit : Nat) :
    csr.getBit a bit = 0 ↔ (csr.readCsr a).getLsbD bit = false := by
  rw [← Bool.not_eq_true, ← getBit_ne_zero_iff, ne_eq, not_not]

/-- The single bit that the setters shift into place. -/
private theorem getLsbD_one_shiftLeft {k : Nat} (hk : k < 32) (i : Nat) :
    (1#32 <<< k).getLsbD i = decide (i = k) := by
  rw [BitVec.getLsbD_shiftLeft, BitVec.getLsbD_one]
  by_cases h : i = k
  · simp [h, hk]
  · simp only [h, decide_false, Bool.and_eq_false_iff, Bool.not_eq_false',
      decide_eq_false_iff_not, decide_eq_true_eq]
    omega

/-- Setting a bit leaves the other CSRs alone. -/
theorem readCsr_setBit_of_ne {a b : U32} (bit : Nat) (h : b ≠ a) :
    (csr.setBit a bit).readCsr b = csr.readCsr b :=
  csr.readCsr_writeCsr_of_ne _ h

/-- So does resetting one. -/
theorem readCsr_resetBit_of_ne {a b : U32} (bit : Nat) (h : b ≠ a) :
    (csr.resetBit a bit).readCsr b = csr.readCsr b :=
  csr.readCsr_writeCsr_of_ne _ h

/-- Setting a bit changes that bit only. -/
theorem getLsbD_setBit (a : U32) {bit : Nat} (hbit : bit < 32) (i : Nat) :
    ((csr.setBit a bit).readCsr a).getLsbD i
      = ((csr.readCsr a).getLsbD i || decide (i = bit)) := by
  unfold setBit
  rw [readCsr_writeCsr_self, BitVec.getLsbD_or,
    getLsbD_one_shiftLeft hbit]

/-- Resetting a bit changes that bit only. -/
theorem getLsbD_resetBit (a : U32) {bit : Nat} (hbit : bit < 32)
    (i : Nat) :
    ((csr.resetBit a bit).readCsr a).getLsbD i
      = ((csr.readCsr a).getLsbD i && !decide (i = bit)) := by
  unfold resetBit
  rw [readCsr_writeCsr_self, BitVec.getLsbD_and, BitVec.getLsbD_not,
    getLsbD_one_shiftLeft hbit]
  by_cases hi : i < 32
  · simp [hi]
  · simp [BitVec.getLsbD_of_ge _ i (by omega : 32 ≤ i)]

end Csr

end T89Emu
