/-
Interrupts.

An interrupt is due (`Due`) when interrupts are on and the CLINT's msip
word is 1 with the software enable set, or the counter of the cycle that
begins has reached mtimecmp with the timer enable set. The core takes
its decision from `mip` instead, a CSR that guest code may have written;
`checkInterrupts_nextCycle` says that the decision is the same, because
the CLINT's cycle recomputes the timer bit from the counter and the
software test does not look at `mip` at all.
-/
import T89Emu.Core.Proofs.Trap

namespace T89Emu

open Bytes Cpp

variable {L : Layout}

-- ====================================================== the CLINT's cycle

namespace ClintMemoryDevice

variable (mem : Mem) (csr : Csr)

/-- The cycle counts up. -/
@[simp] theorem mcycle_nextCycle :
    mcycle (nextCycle mem csr).1 = mcycle mem + 1 :=
  mem.peek_poke_same _ _

@[simp] theorem mtimecmp_nextCycle :
    mtimecmp (nextCycle mem csr).1 = mtimecmp mem :=
  mem.peek_poke_disjoint _ _ (by decide)

@[simp] theorem msip_nextCycle :
    msip (nextCycle mem csr).1 = msip mem :=
  mem.peek_poke_disjoint _ _ (by decide)

/-- It changes no byte above the counter. -/
theorem nextCycle_above {i : Fin CLINT_SIZE.toNat} (h : 8 ≤ i.val) :
    (nextCycle mem csr).1 i = mem i :=
  mem.poke_of_not_mem _ (.inr h)

/-- It changes no CSR but `mip`. -/
theorem readCsr_nextCycle_of_ne {a : U32} (h : a ≠ CSR_MIP) :
    (nextCycle mem csr).2.readCsr a = csr.readCsr a := by
  unfold nextCycle Csr.setMsip Csr.setMtip Csr.resetMtip
  dsimp only
  split
  · rw [Csr.readCsr_setBit_of_ne _ _ h]
    split
    · rw [Csr.readCsr_setBit_of_ne _ _ h]
    · rw [Csr.readCsr_resetBit_of_ne _ _ h]
  · split
    · rw [Csr.readCsr_setBit_of_ne _ _ h]
    · rw [Csr.readCsr_resetBit_of_ne _ _ h]

/-- Setting the software bit leaves the timer bit alone. -/
private theorem getMtip_setMsip : csr.setMsip.getMtip = csr.getMtip := by
  unfold Csr.setMsip Csr.getMtip
  rw [Csr.getBit_eq, Csr.getBit_eq, Csr.getLsbD_setBit _ _ (by decide)]
  simp [MIP_MTIP_MASK, MIP_MSIP_MASK]

/-- Afterwards the timer bit says whether the counter has reached
mtimecmp, whatever it said before. -/
theorem getMtip_nextCycle :
    (nextCycle mem csr).2.getMtip = 1
      ↔ mcycle mem + 1 ≥ mtimecmp mem := by
  have htimer : (if mcycle mem + 1 ≥ mtimecmp mem then csr.setMtip
        else csr.resetMtip).getMtip = 1
      ↔ mcycle mem + 1 ≥ mtimecmp mem := by
    unfold Csr.getMtip Csr.setMtip Csr.resetMtip
    rw [Csr.getBit_eq_one_iff]
    split
    · next h =>
      rw [Csr.getLsbD_setBit _ _ (by decide)]
      exact iff_of_true (by simp) h
    · next h =>
      rw [Csr.getLsbD_resetBit _ _ (by decide)]
      exact iff_of_false (by simp) h
  rw [← htimer, ← mcycle_nextCycle mem csr, ← mtimecmp_nextCycle mem csr]
  unfold nextCycle
  dsimp only
  split
  · rw [getMtip_setMsip]
  · rfl

end ClintMemoryDevice

namespace Mcu

/-- The CLINT's cycle touches the CLINT and `mip`. -/
theorem nextCycle_frame (s : Mcu L) :
    s.nextCycle.rf = s.rf ∧ s.nextCycle.pc = s.pc
      ∧ s.nextCycle.nextPc = s.nextPc
      ∧ (∀ k, k ≠ .clint → s.nextCycle.mem k = s.mem k)
      ∧ ∀ a, a ≠ CSR_MIP → s.nextCycle.csr.readCsr a = s.csr.readCsr a :=
  ⟨rfl, rfl, rfl, fun _ hk => Function.update_of_ne hk _ _,
    fun _ ha => ClintMemoryDevice.readCsr_nextCycle_of_ne _ _ ha⟩

/-- What it makes of the CLINT. -/
theorem nextCycle_clint (s : Mcu L) :
    s.nextCycle.mem .clint
      = (ClintMemoryDevice.nextCycle (s.mem .clint) s.csr).1 := by
  let mem : (L.device .clint).Mem :=
    (ClintMemoryDevice.nextCycle (s.mem .clint) s.csr).1
  have hself : Function.update s.mem .clint mem .clint = mem :=
    Function.update_self ..
  exact hself

theorem mcycle_after_nextCycle (s : Mcu L) :
    ClintMemoryDevice.mcycle (s.nextCycle.mem .clint)
      = ClintMemoryDevice.mcycle (s.mem .clint) + 1 := by
  rw [nextCycle_clint]
  exact ClintMemoryDevice.mcycle_nextCycle _ s.csr

theorem clint_above_nextCycle (s : Mcu L) {i : Fin CLINT_SIZE.toNat}
    (hi : 8 ≤ i.val) : s.nextCycle.mem .clint i = s.mem .clint i := by
  rw [nextCycle_clint]
  exact ClintMemoryDevice.nextCycle_above _ s.csr hi

/-- The getters of other CSRs do not see it. -/
theorem getBit_nextCycle (s : Mcu L) {a : U32} (bit : Nat)
    (h : a ≠ CSR_MIP) :
    s.nextCycle.csr.getBit a bit = s.csr.getBit a bit := by
  unfold Csr.getBit
  rw [s.nextCycle_frame.2.2.2.2 a h]

-- ================================================ statement vocabulary

/-- The CLINT asks for a software interrupt, and it is enabled. -/
def SoftwareDue (s : Mcu L) : Prop :=
  ClintMemoryDevice.msip (s.mem .clint) = 1 ∧ s.csr.getMsie = 1

/-- The counter of the cycle that begins has reached mtimecmp, and the
timer interrupt is enabled. -/
def TimerDue (s : Mcu L) : Prop :=
  ClintMemoryDevice.mcycle (s.mem .clint) + 1
      ≥ ClintMemoryDevice.mtimecmp (s.mem .clint)
    ∧ s.csr.getMtie = 1

instance (s : Mcu L) : Decidable s.SoftwareDue :=
  inferInstanceAs (Decidable (_ ∧ _))

instance (s : Mcu L) : Decidable s.TimerDue :=
  inferInstanceAs (Decidable (_ ∧ _))

/-- An interrupt is due. -/
def Due (s : Mcu L) : Prop :=
  s.csr.getMie = 1 ∧ (s.SoftwareDue ∨ s.TimerDue)

instance (s : Mcu L) : Decidable s.Due :=
  inferInstanceAs (Decidable (_ ∧ _))

/-- Which one: software interrupts come first. -/
def dueCause (s : Mcu L) : U32 :=
  if s.SoftwareDue then MACHINE_SOFTWARE_INTERRUPT
  else MACHINE_TIMER_INTERRUPT

-- ======================================================== the decision

/-- The check after the CLINT's cycle reports what is due. -/
theorem checkInterrupts_nextCycle (s : Mcu L) :
    s.nextCycle.checkInterrupts
      = if s.Due then (true, s.dueCause) else (false, s.interruptType) := by
  have hmie : s.nextCycle.csr.getMie = s.csr.getMie :=
    s.getBit_nextCycle _ (by decide)
  have hmsie : s.nextCycle.csr.getMsie = s.csr.getMsie :=
    s.getBit_nextCycle _ (by decide)
  have hmtie : s.nextCycle.csr.getMtie = s.csr.getMtie :=
    s.getBit_nextCycle _ (by decide)
  have hmsip : ClintMemoryDevice.msip (s.nextCycle.mem .clint)
      = ClintMemoryDevice.msip (s.mem .clint) := by
    rw [nextCycle_clint]
    exact ClintMemoryDevice.msip_nextCycle _ s.csr
  have hsoft : (ClintMemoryDevice.msip (s.nextCycle.mem .clint) = 1
      ∧ s.nextCycle.csr.getMsie ≠ 0) ↔ s.SoftwareDue := by
    rw [hmsip, hmsie]
    exact and_congr_right' (s.csr.getBit_ne_zero_iff_eq_one _ _)
  have htimer : (s.nextCycle.csr.getMtip ≠ 0
      ∧ s.nextCycle.csr.getMtie ≠ 0) ↔ s.TimerDue := by
    rw [hmtie]
    refine and_congr ?_ (s.csr.getBit_ne_zero_iff_eq_one _ _)
    exact (s.nextCycle.csr.getBit_ne_zero_iff_eq_one _ _).trans
      (ClintMemoryDevice.getMtip_nextCycle _ _)
  unfold checkInterrupts ClintMemoryDevice.checkInterrupts dueCause
  rw [hmie]
  have hcases : s.csr.getMie = 0 ∨ s.csr.getMie = 1 :=
    s.csr.getBit_cases _ _
  rcases hcases with hoff | hon
  · have hnot : ¬ s.Due := by
      unfold Due
      rw [hoff]
      exact fun h => absurd h.1 (by decide)
    rw [if_pos hoff, if_neg hnot]
    rfl
  · have hmie0 : ¬ s.csr.getMie = 0 := by
      rw [hon]
      decide
    have hdue : s.Due ↔ s.SoftwareDue ∨ s.TimerDue := and_iff_right hon
    rw [if_neg hmie0]
    by_cases hs : s.SoftwareDue
    · rw [if_pos (hsoft.2 hs), if_pos (hdue.2 (.inl hs)), if_pos hs]
    · rw [if_neg fun h => hs (hsoft.1 h)]
      by_cases ht : s.TimerDue
      · rw [if_pos (htimer.2 ht), if_pos (hdue.2 (.inr ht)), if_neg hs]
      · rw [if_neg fun h => ht (htimer.1 h),
          if_neg fun h => (hdue.1 h).elim hs ht]
        rfl

-- ============================================================= the entry

/-- The causes are the two interrupt codes. -/
theorem dueCause_cases (s : Mcu L) :
    s.dueCause = MACHINE_SOFTWARE_INTERRUPT
      ∨ s.dueCause = MACHINE_TIMER_INTERRUPT := by
  unfold dueCause
  split
  · exact .inl rfl
  · exact .inr rfl

/-- The first part of a cycle: the CLINT counts, and the trap is entered
if an interrupt is due. -/
theorem serviceInterrupts_of_due {s : Mcu L} (h : s.Due) :
    s.serviceInterrupts
      = { s.nextCycle with interruptType := s.dueCause }.takeTrap
          s.dueCause := by
  unfold serviceInterrupts
  dsimp only
  rw [checkInterrupts_nextCycle, if_pos h]
  rfl

theorem serviceInterrupts_of_not_due {s : Mcu L} (h : ¬ s.Due) :
    s.serviceInterrupts = s.nextCycle := by
  unfold serviceInterrupts
  dsimp only
  rw [checkInterrupts_nextCycle, if_neg h]
  rfl

/-- While MIE is 0 nothing is due. -/
theorem not_due_of_getMie {s : Mcu L} (h : s.csr.getMie = 0) :
    ¬ s.Due := by
  intro hdue
  have hon := hdue.1
  rw [h] at hon
  exact absurd hon (by decide)

/-- An interrupt entry leaves registers and memory to the CLINT's cycle,
and the CSRs that neither writes. -/
theorem interrupt_frame {s : Mcu L} (h : s.Due) :
    s.serviceInterrupts.nextPc = s.serviceInterrupts.pc
      ∧ s.serviceInterrupts.rf = s.rf
      ∧ s.serviceInterrupts.mem = s.nextCycle.mem
      ∧ ∀ a, a ≠ CSR_MSTATUS → a ≠ CSR_MIP → a ≠ CSR_MEPC →
        a ≠ CSR_MCAUSE →
        s.serviceInterrupts.csr.readCsr a = s.csr.readCsr a := by
  rw [serviceInterrupts_of_due h]
  refine ⟨rfl, rfl, rfl, fun a hstatus hip hepc hcause => ?_⟩
  rw [readCsr_takeTrap_of_ne _ _ hstatus hepc hcause]
  exact s.nextCycle_frame.2.2.2.2 a hip

/-- Interrupts are off in its handler, and will be on again after it. -/
theorem interrupt_enables {s : Mcu L} (h : s.Due) :
    s.serviceInterrupts.csr.getMie = 0
      ∧ s.serviceInterrupts.csr.getMpie = 1 := by
  rw [serviceInterrupts_of_due h, getMie_takeTrap, getMpie_takeTrap]
  refine ⟨rfl, .inl ?_⟩
  exact (s.getBit_nextCycle _ (by decide)).trans h.1

/-- Where an interrupt goes and where it comes back to. -/
theorem interrupt_entry {s : Mcu L} (h : s.Due) :
    s.serviceInterrupts.pc = s.csr.getMtvec + 4 * (s.dueCause - 0x80000000)
      ∧ s.serviceInterrupts.csr.readCsr CSR_MEPC = s.pc
      ∧ s.serviceInterrupts.csr.readCsr CSR_MCAUSE = s.dueCause := by
  rw [serviceInterrupts_of_due h, readCsr_takeTrap_mepc,
    readCsr_takeTrap_mcause, (takeTrap_frame _ _).1]
  have htvec : s.nextCycle.csr.getMtvec = s.csr.getMtvec :=
    s.nextCycle_frame.2.2.2.2 _ (by decide)
  unfold vectorSlot returnAddr
  dsimp only
  rw [htvec]
  rcases s.dueCause_cases with hc | hc
  · rw [hc]
    exact ⟨rfl, rfl, rfl⟩
  · rw [hc]
    exact ⟨rfl, rfl, rfl⟩

/-- Interrupts are taken exactly when due, with the cause that is due.
When one is taken, the instruction attempted is the one in the cause's
vector slot and `mepc` holds the old program counter; otherwise it is
the one at the old program counter, and `mstatus`, `mepc` and `mcause`
are untouched. -/
theorem interrupts_taken_when_due (s : Mcu L) :
    s.nextInstruction = s.serviceInterrupts.attempt
      ∧ (s.nextCycle.checkInterrupts.1 = true ↔ s.Due)
      ∧ (s.Due → s.nextCycle.checkInterrupts.2 = s.dueCause
        ∧ s.serviceInterrupts.pc
          = s.csr.getMtvec + 4 * (s.dueCause - 0x80000000)
        ∧ s.serviceInterrupts.csr.readCsr CSR_MEPC = s.pc
        ∧ s.serviceInterrupts.csr.readCsr CSR_MCAUSE = s.dueCause)
      ∧ (¬ s.Due → s.serviceInterrupts.pc = s.pc
        ∧ ∀ a ∈ [CSR_MSTATUS, CSR_MEPC, CSR_MCAUSE],
          s.serviceInterrupts.csr.readCsr a = s.csr.readCsr a) := by
  refine ⟨rfl, ?_, fun h => ?_, fun h => ?_⟩
  · rw [checkInterrupts_nextCycle]
    split
    · next h => exact iff_of_true rfl h
    · next h => exact iff_of_false nofun h
  · rw [checkInterrupts_nextCycle, if_pos h]
    exact ⟨rfl, interrupt_entry h⟩
  · rw [serviceInterrupts_of_not_due h]
    refine ⟨rfl, fun a ha => s.nextCycle_frame.2.2.2.2 a ?_⟩
    rintro rfl
    exact absurd ha (by decide)

end Mcu

end T89Emu
