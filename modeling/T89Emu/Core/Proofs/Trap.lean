/-
Trap entry and MRET on the CSR file.

Both edit `mstatus` one bit at a time, through the setters of Csr.cpp.
Here each of them is one equation for its bits (`getLsbD_takeTrap`,
`getLsbD_mretCsr`) and one that says which other registers it touches:
`takeTrap` writes `mepc` and `mcause`, MRET nothing else.

The equations show where the two are not inverse. Trap entry copies MIE
into MPIE when MIE is set and leaves MPIE alone when it is not, so
afterwards MPIE is MIE *or* the old MPIE (`getMpie_takeTrap`); and MRET
sets MIE from MPIE but never clears it (`getMie_mretCsr`).
-/
import Mathlib.Tactic.Common
import T89Emu.Core.Mcu

namespace T89Emu

variable {L : Layout}

namespace Csr

variable (csr : Csr)

/-- The value that `setMpp(MACHINE_MODE)` sets in place. -/
private theorem getLsbD_mpp (i : Nat) :
    ((MACHINE_MODE &&& 0b11) <<< MSTATUS_MPP_MASK).getLsbD i
      = decide (i = 11 ∨ i = 12) := by
  have hlow : ∀ i < 32,
      ((MACHINE_MODE &&& 0b11) <<< MSTATUS_MPP_MASK).getLsbD i
        = decide (i = 11 ∨ i = 12) := by decide
  by_cases hi : i < 32
  · exact hlow i hi
  · rw [BitVec.getLsbD_of_ge _ i (by omega)]
    exact (decide_eq_false (by omega)).symm

/-- `setMpp(MACHINE_MODE)` sets the two bits of MPP. -/
theorem getLsbD_setMpp (i : Nat) :
    ((csr.setMpp MACHINE_MODE).readCsr CSR_MSTATUS).getLsbD i
      = ((csr.readCsr CSR_MSTATUS).getLsbD i
        || decide (i = 11 ∨ i = 12)) := by
  unfold setMpp
  rw [readCsr_writeCsr_self, BitVec.getLsbD_or, getLsbD_mpp]

theorem readCsr_setMpp_of_ne {a : U32} (mask : U32) (h : a ≠ CSR_MSTATUS) :
    (csr.setMpp mask).readCsr a = csr.readCsr a :=
  csr.readCsr_writeCsr_of_ne _ h

end Csr

namespace Mcu

-- ================================================================= MRET

/-- The bits of `mstatus` after MRET: MIE joins MPIE, MPIE and MPP are
set. -/
theorem getLsbD_mretCsr (csr : Csr) (i : Nat) :
    ((mretCsr csr).readCsr CSR_MSTATUS).getLsbD i
      = ((csr.readCsr CSR_MSTATUS).getLsbD i
        || (decide (i = 3) && (csr.readCsr CSR_MSTATUS).getLsbD 7)
        || decide (i = 7 ∨ i = 11 ∨ i = 12)) := by
  have hpie := csr.getBit_ne_zero_iff CSR_MSTATUS MSTATUS_MPIE_MASK
  unfold mretCsr Csr.setMpie Csr.setMie Csr.getMpie
  dsimp only
  rw [Csr.getLsbD_setMpp, Csr.getLsbD_setBit _ _ (by decide)]
  cases hb : (csr.readCsr CSR_MSTATUS).getLsbD 7 with
  | true =>
      rw [if_pos (hpie.2 hb), Csr.getLsbD_setBit _ _ (by decide)]
      simp only [MSTATUS_MIE_MASK, MSTATUS_MPIE_MASK, Bool.and_true,
        Bool.or_assoc, Bool.decide_or]
      rfl
  | false =>
      rw [if_neg fun h => by
        have := hpie.1 h
        rw [show MSTATUS_MPIE_MASK = 7 from rfl, hb] at this
        cases this]
      simp only [MSTATUS_MPIE_MASK, Bool.and_false, Bool.or_false,
        Bool.or_assoc, Bool.decide_or]
      rfl

/-- MRET changes no CSR but `mstatus`. -/
theorem readCsr_mretCsr_of_ne (csr : Csr) {a : U32}
    (h : a ≠ CSR_MSTATUS) : (mretCsr csr).readCsr a = csr.readCsr a := by
  unfold mretCsr Csr.setMpie Csr.setMie
  dsimp only
  rw [Csr.readCsr_setMpp_of_ne _ _ h, Csr.readCsr_setBit_of_ne _ _ h]
  split
  · rw [Csr.readCsr_setBit_of_ne _ _ h]
  · rfl

/-- MRET changes nothing exactly when MIE, MPIE and MPP are set. -/
theorem mretCsr_eq_self_iff (csr : Csr) :
    mretCsr csr = csr
      ↔ ∀ i ∈ [3, 7, 11, 12],
          (csr.readCsr CSR_MSTATUS).getLsbD i = true := by
  constructor
  · intro h
    have hbit := fun i => getLsbD_mretCsr csr i
    rw [h] at hbit
    have h7 := hbit 7
    have h3 := hbit 3
    have h11 := hbit 11
    have h12 := hbit 12
    simp at h7 h3 h11 h12
    simp [h7, h3 h7, h11, h12]
  · intro h
    refine Csr.ext_readCsr fun a => ?_
    by_cases ha : a = CSR_MSTATUS
    · subst ha
      apply BitVec.eq_of_getLsbD_eq
      intro i _
      rw [getLsbD_mretCsr]
      by_cases hi : i ∈ [3, 7, 11, 12]
      · rw [h i hi]
        rfl
      · simp only [List.mem_cons, List.not_mem_nil, or_false, not_or] at hi
        simp [hi.1, hi.2.1, hi.2.2.1, hi.2.2.2]
    · exact readCsr_mretCsr_of_ne csr ha

/-- MRET sets MIE from MPIE and never clears it. -/
theorem getMie_mretCsr (csr : Csr) :
    (mretCsr csr).getMie = 1 ↔ csr.getMie = 1 ∨ csr.getMpie = 1 := by
  unfold Csr.getMie Csr.getMpie
  rw [Csr.getBit_eq_one_iff, Csr.getBit_eq_one_iff, Csr.getBit_eq_one_iff,
    getLsbD_mretCsr]
  simp [MSTATUS_MIE_MASK, MSTATUS_MPIE_MASK]

-- ============================================================ trap entry

/-- Where a trap returns to: past the instruction for ECALL, to it
otherwise. -/
def returnAddr (s : Mcu L) (mcause : U32) : U32 :=
  if mcause = ECALL_FROM_M_MODE then s.pc + 4 else s.pc

/-- The vector slot of a cause. -/
def vectorSlot (s : Mcu L) (mcause : U32) : U32 :=
  s.csr.getMtvec + 4 * Trap.vectorTableOffset mcause

/-- The edit of `mstatus` in `takeTrap`. -/
private def enter (csr : Csr) : Csr :=
  let csr := if csr.getMie ≠ 0 then csr.setMpie else csr
  let csr := csr.resetMie
  let csr := csr.setMpp MACHINE_MODE
  csr.resetMie

private theorem getLsbD_enter (csr : Csr) (i : Nat) :
    ((enter csr).readCsr CSR_MSTATUS).getLsbD i
      = (!decide (i = 3) && ((csr.readCsr CSR_MSTATUS).getLsbD i
        || (decide (i = 7) && (csr.readCsr CSR_MSTATUS).getLsbD 3)
        || decide (i = 11 ∨ i = 12))) := by
  have hie := csr.getBit_ne_zero_iff CSR_MSTATUS MSTATUS_MIE_MASK
  unfold enter Csr.resetMie Csr.setMpie Csr.getMie
  dsimp only
  rw [Csr.getLsbD_resetBit _ _ (by decide), Csr.getLsbD_setMpp,
    Csr.getLsbD_resetBit _ _ (by decide)]
  show _ = (!decide (i = MSTATUS_MIE_MASK) && _)
  cases hb : (csr.readCsr CSR_MSTATUS).getLsbD 3 with
  | true =>
      rw [if_pos (hie.2 hb), Csr.getLsbD_setBit _ _ (by decide)]
      by_cases hi : i = MSTATUS_MIE_MASK
      · simp [hi]
      · simp only [hi, MSTATUS_MPIE_MASK, decide_false, Bool.not_false,
          Bool.true_and, Bool.and_true]
        rfl
  | false =>
      rw [if_neg fun h => by
        have := hie.1 h
        rw [show MSTATUS_MIE_MASK = 3 from rfl, hb] at this
        cases this]
      by_cases hi : i = MSTATUS_MIE_MASK
      · simp [hi]
      · simp [hi]

private theorem readCsr_enter_of_ne (csr : Csr) {a : U32}
    (h : a ≠ CSR_MSTATUS) : (enter csr).readCsr a = csr.readCsr a := by
  unfold enter Csr.setMpie Csr.resetMie
  dsimp only
  rw [Csr.readCsr_resetBit_of_ne _ _ h, Csr.readCsr_setMpp_of_ne _ _ h,
    Csr.readCsr_resetBit_of_ne _ _ h]
  split
  · rw [Csr.readCsr_setBit_of_ne _ _ h]
  · rfl

/-- `takeTrap` saves the return address and the cause, then edits
`mstatus`. -/
private theorem takeTrap_csr (s : Mcu L) (mcause : U32) :
    (s.takeTrap mcause).csr
      = enter ((s.csr.writeCsr CSR_MEPC (s.returnAddr mcause)).writeCsr
          CSR_MCAUSE mcause) := by
  unfold returnAddr
  by_cases hc : mcause = ECALL_FROM_M_MODE
  · subst hc
    have hsave : (s.csr.setMepc s.pc).setMepc
          ((s.csr.setMepc s.pc).getMepc + 4)
        = s.csr.writeCsr CSR_MEPC (s.pc + 4) := by
      unfold Csr.setMepc Csr.getMepc
      rw [Csr.readCsr_writeCsr_self, Csr.writeCsr_writeCsr]
    rw [if_pos rfl, ← hsave]
    rfl
  · rw [if_neg hc]
    unfold takeTrap
    simp only [if_neg hc]
    rfl

/-- The bits of `mstatus` after a trap: MPIE joins MIE, MIE is clear, MPP
is set. -/
theorem getLsbD_takeTrap (s : Mcu L) (mcause : U32) (i : Nat) :
    ((s.takeTrap mcause).csr.readCsr CSR_MSTATUS).getLsbD i
      = (!decide (i = 3) && ((s.csr.readCsr CSR_MSTATUS).getLsbD i
        || (decide (i = 7) && (s.csr.readCsr CSR_MSTATUS).getLsbD 3)
        || decide (i = 11 ∨ i = 12))) := by
  rw [takeTrap_csr, getLsbD_enter,
    Csr.readCsr_writeCsr_of_ne _ _ (by decide),
    Csr.readCsr_writeCsr_of_ne _ _ (by decide)]

@[simp] theorem readCsr_takeTrap_mepc (s : Mcu L) (mcause : U32) :
    (s.takeTrap mcause).csr.readCsr CSR_MEPC = s.returnAddr mcause := by
  rw [takeTrap_csr, readCsr_enter_of_ne _ (by decide),
    Csr.readCsr_writeCsr_of_ne _ _ (by decide), Csr.readCsr_writeCsr_self]

@[simp] theorem readCsr_takeTrap_mcause (s : Mcu L) (mcause : U32) :
    (s.takeTrap mcause).csr.readCsr CSR_MCAUSE = mcause := by
  rw [takeTrap_csr, readCsr_enter_of_ne _ (by decide),
    Csr.readCsr_writeCsr_self]

/-- Trap entry changes no other CSR. -/
theorem readCsr_takeTrap_of_ne (s : Mcu L) (mcause : U32) {a : U32}
    (hstatus : a ≠ CSR_MSTATUS) (hepc : a ≠ CSR_MEPC)
    (hcause : a ≠ CSR_MCAUSE) :
    (s.takeTrap mcause).csr.readCsr a = s.csr.readCsr a := by
  rw [takeTrap_csr, readCsr_enter_of_ne _ hstatus,
    Csr.readCsr_writeCsr_of_ne _ _ hcause,
    Csr.readCsr_writeCsr_of_ne _ _ hepc]

/-- Trap entry moves both program counters to the vector slot and leaves
registers, memory and the interrupt type alone. -/
theorem takeTrap_frame (s : Mcu L) (mcause : U32) :
    (s.takeTrap mcause).pc = s.vectorSlot mcause
      ∧ (s.takeTrap mcause).nextPc = s.vectorSlot mcause
      ∧ (s.takeTrap mcause).rf = s.rf ∧ (s.takeTrap mcause).mem = s.mem
      ∧ (s.takeTrap mcause).interruptType = s.interruptType := by
  have htvec : (s.takeTrap mcause).csr.getMtvec = s.csr.getMtvec :=
    readCsr_takeTrap_of_ne s mcause (by decide) (by decide) (by decide)
  unfold vectorSlot
  rw [← htvec]
  exact ⟨rfl, rfl, rfl, rfl, rfl⟩

/-- After a trap interrupts are off. -/
@[simp] theorem getMie_takeTrap (s : Mcu L) (mcause : U32) :
    (s.takeTrap mcause).csr.getMie = 0 := by
  unfold Csr.getMie
  rw [Csr.getBit_eq_zero_iff, getLsbD_takeTrap]
  rfl

/-- After a trap MPIE is MIE or the old MPIE. -/
theorem getMpie_takeTrap (s : Mcu L) (mcause : U32) :
    (s.takeTrap mcause).csr.getMpie = 1
      ↔ s.csr.getMie = 1 ∨ s.csr.getMpie = 1 := by
  unfold Csr.getMie Csr.getMpie
  rw [Csr.getBit_eq_one_iff, Csr.getBit_eq_one_iff, Csr.getBit_eq_one_iff,
    getLsbD_takeTrap]
  simp [MSTATUS_MIE_MASK, MSTATUS_MPIE_MASK, or_comm]

end Mcu

end T89Emu
