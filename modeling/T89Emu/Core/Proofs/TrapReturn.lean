/-
Trap entry and return.

A handler runs between `takeTrap` and MRET. It may be interrupted by
nothing, because interrupts are off, so it is a sequence of CLINT cycles
and instructions (`HandlerStep`); `handlerSteps_of_nextInstruction` says
that the cycles of `Mcu::nextInstruction` are of this kind. As long as no
instruction of it writes `mstatus` or `mepc`, MRET finds both as trap
entry left them.

# What comes back

The program counter does, always. MIE does not when it was 0 and MPIE
was 1: trap entry keeps the stale MPIE, and MRET turns it into MIE
(`mret_restores_iff`).
-/
import Mathlib.Logic.Relation
import T89Emu.Core.Proofs.Interrupt
import T89Emu.Core.Proofs.Step

namespace T89Emu

open Bytes Cpp Run

variable {L : Layout}

namespace Mcu

-- ================================================ statement vocabulary

/-- The word is decoded as MRET. -/
def IsMret (w : U32) : Prop :=
  opcodeOf w = .PRIV ∧ funct3 w = 0#3
    ∧ ImmediateGenerator.getImmediate w = MRET_IMM

instance (w : U32) : Decidable (IsMret w) :=
  inferInstanceAs (Decidable (_ ∧ _))

/-- A step of a handler: a cycle of the CLINT that reports no interrupt,
or an instruction that raises no exception and writes neither `mstatus`
nor `mepc`. -/
inductive HandlerStep : Mcu L → Mcu L → Prop
  | cycle {s : Mcu L} (h : s.nextCycle.checkInterrupts.1 = false) :
      HandlerStep s s.nextCycle
  | execute {s s' : Mcu L} {w : U32} (hw : s.Fetches w)
      (hstatus : ¬ WritesCsr w CSR_MSTATUS)
      (hepc : ¬ WritesCsr w CSR_MEPC)
      (h : s.executeInstruction = .ok (STATUS_OK, s')) : HandlerStep s s'

/-- The handler has left `mstatus` and `mepc` as it found them. -/
def SameReturn (s t : Mcu L) : Prop :=
  t.csr.readCsr CSR_MSTATUS = s.csr.readCsr CSR_MSTATUS
    ∧ t.csr.readCsr CSR_MEPC = s.csr.readCsr CSR_MEPC

theorem SameReturn.getBit {s t : Mcu L} (h : SameReturn s t) (bit : Nat) :
    t.csr.getBit CSR_MSTATUS bit = s.csr.getBit CSR_MSTATUS bit := by
  unfold Csr.getBit
  rw [h.1]

-- =========================================================== the handler

/-- An instruction that raises no exception leaves the CSRs alone that it
does not write. -/
theorem readCsr_of_ok {s s' : Mcu L} {w a : U32} (hw : s.Fetches w)
    (h : s.executeInstruction = .ok (STATUS_OK, s'))
    (ha : ¬ WritesCsr w a) : s'.csr.readCsr a = s.csr.readCsr a := by
  rcases executeInstruction_cases h with
    ⟨-, hne, -⟩ | ⟨w', t, hw', ht, ⟨-, hcode, -⟩ | ⟨-, -, rfl⟩⟩
  · exact absurd rfl hne
  · exact absurd hcode (by decide)
  · rw [hw'.unique hw] at ht
    exact ht.readCsr ha

/-- One step of a handler. -/
theorem HandlerStep.sameReturn {s t : Mcu L} (h : HandlerStep s t) :
    SameReturn s t := by
  cases h with
  | cycle h =>
      have hframe := s.nextCycle_frame.2.2.2.2
      exact ⟨hframe _ (by decide), hframe _ (by decide)⟩
  | execute hw hstatus hepc h =>
      exact ⟨readCsr_of_ok hw h hstatus, readCsr_of_ok hw h hepc⟩

/-- The whole handler. -/
theorem sameReturn_of_run {s t : Mcu L}
    (h : Relation.ReflTransGen HandlerStep s t) : SameReturn s t := by
  induction h with
  | refl => exact ⟨rfl, rfl⟩
  | tail _ hstep ih =>
      have hnext := hstep.sameReturn
      exact ⟨hnext.1.trans ih.1, hnext.2.trans ih.2⟩

/-- With interrupts off, a cycle of the core whose instruction raises no
exception and writes neither `mstatus` nor `mepc` is two handler
steps. -/
theorem handlerSteps_of_nextInstruction {s s' : Mcu L} {w : U32}
    (hoff : s.csr.getMie = 0) (hw : s.nextCycle.Fetches w)
    (hstatus : ¬ WritesCsr w CSR_MSTATUS) (hepc : ¬ WritesCsr w CSR_MEPC)
    (h : s.nextCycle.executeInstruction = .ok (STATUS_OK, s')) :
    s.nextInstruction = .ok s'
      ∧ Relation.ReflTransGen HandlerStep s s' := by
  have hdue := not_due_of_getMie hoff
  constructor
  · unfold nextInstruction
    rw [serviceInterrupts_of_not_due hdue, attempt_of_ok h]
  · refine .tail (.single (.cycle ?_)) (.execute hw hstatus hepc h)
    rw [checkInterrupts_nextCycle, if_neg hdue]

-- ================================================================ the MRET

/-- MRET to an aligned `mepc`. -/
theorem executeInstruction_mret {s : Mcu L} {w : U32} (hw : s.Fetches w)
    (hmret : IsMret w) (hal : s.csr.getMepc.toNat % 4 = 0) :
    s.executeInstruction
      = .ok (STATUS_OK, { s with
          csr := mretCsr s.csr
          nextPc := s.csr.getMepc
          pc := s.csr.getMepc }) := by
  obtain ⟨hop, hf, hi⟩ := hmret
  have hret : Retired s w { s with csr := mretCsr s.csr } :=
    .system hop (executePriv_mret hf hi)
  have htarget : s.target w = s.csr.getMepc := by
    unfold target NextPc.update
    rw [hop, hf, hi]
    rfl
  rw [executeInstruction_of_retired hw hret, htarget,
    if_neg (not_not.2 hal)]

/-- A trap taken in `s`, a handler that raises no trap and writes neither
`mstatus` nor `mepc`, and MRET: the program counter is the return
address, and MIE is what it was in `s` exactly when it was 1 or MPIE was
0. -/
theorem mret_restores_iff (s t : Mcu L) (mcause w : U32)
    (hrun : Relation.ReflTransGen HandlerStep (s.takeTrap mcause) t)
    (hw : t.Fetches w) (hmret : IsMret w)
    (hal : (s.returnAddr mcause).toNat % 4 = 0) :
    ∃ u, t.executeInstruction = .ok (STATUS_OK, u)
      ∧ u.pc = s.returnAddr mcause
      ∧ (u.csr.getMie = s.csr.getMie
        ↔ s.csr.getMie = 1 ∨ s.csr.getMpie = 0) := by
  have hsame := sameReturn_of_run hrun
  have hret : t.csr.getMepc = s.returnAddr mcause :=
    hsame.2.trans (s.readCsr_takeTrap_mepc mcause)
  have hexec := executeInstruction_mret hw hmret (by rw [hret]; exact hal)
  refine ⟨_, hexec, hret, ?_⟩
  show (mretCsr t.csr).getMie = _ ↔ _
  -- MIE comes back as the MPIE of the trap, for the trap cleared MIE
  have hoff : t.csr.getMie = 0 :=
    (hsame.getBit _).trans (s.getMie_takeTrap mcause)
  have hpie : t.csr.getMpie = 1 ↔ s.csr.getMie = 1 ∨ s.csr.getMpie = 1 := by
    rw [← s.getMpie_takeTrap mcause]
    exact Eq.congr_left (hsame.getBit _)
  have hback : (mretCsr t.csr).getMie = 1
      ↔ s.csr.getMie = 1 ∨ s.csr.getMpie = 1 := by
    rw [getMie_mretCsr, hoff, hpie]
    exact or_iff_right (by decide)
  have hback0 : (mretCsr t.csr).getMie = 0 ↔ ¬ (mretCsr t.csr).getMie = 1 :=
    (mretCsr t.csr).getBit_eq_zero_iff_ne_one _ _
  have hpie0 : s.csr.getMpie = 0 ↔ ¬ s.csr.getMpie = 1 :=
    s.csr.getBit_eq_zero_iff_ne_one _ _
  have hcases : s.csr.getMie = 0 ∨ s.csr.getMie = 1 := s.csr.getBit_cases _ _
  rcases hcases with h0 | h1
  · have h01 : ¬ (0#32 = 1#32) := by decide
    rw [h0, hback0, hback, hpie0, h0]
    exact (not_congr (or_iff_right h01)).trans (or_iff_right h01).symm
  · rw [h1]
    exact iff_of_true (hback.2 (.inl h1)) (.inl rfl)

/-- A program that points `mtvec` at itself, sets MPIE and not MIE, and
meets an ECALL whose vector slot holds a bare MRET: the handler returns
with interrupts on. -/
theorem stale_mpie_enables_interrupts :
    let words := [0x800000b7, 0x30509073, 0x08000113, 0x30011073, 0x73]
      ++ List.replicate 22 0 ++ [0x30200073]
    ∃ s, steps nextInstruction 4 (program words) = .ok s
      ∧ s.csr.getMie = 0
      ∧ (s.returnAddr ECALL_FROM_M_MODE).toNat % 4 = 0
      ∧ (s.takeTrap ECALL_FROM_M_MODE).Fetches 0x30200073
      ∧ IsMret 0x30200073
      ∧ (s.takeTrap ECALL_FROM_M_MODE).executeInstruction.map
          (fun r => (r.1, r.2.csr.getMie)) = .ok (STATUS_OK, 1) := by
  intro words
  have hrun : (steps nextInstruction 4 (program words)).map (fun s =>
      (s.csr.getMie, s.returnAddr ECALL_FROM_M_MODE,
        (s.takeTrap ECALL_FROM_M_MODE).executeInstruction.map
          (fun r => (r.1, r.2.csr.getMie))))
      = .ok (0, 0x80000014, .ok (STATUS_OK, 1)) := by decide +kernel
  have hslot : (steps nextInstruction 4 (program words)).map (fun s =>
      (s.takeTrap ECALL_FROM_M_MODE).busRead
        (s.takeTrap ECALL_FROM_M_MODE).pc WORD)
      = .ok (.ok (STATUS_OK, some 0x30200073)) := by decide +kernel
  obtain ⟨s, hs, hobs⟩ := map_eq_ok.1 hrun
  obtain ⟨hmie, hobs⟩ := Prod.mk.inj hobs
  obtain ⟨hret, hexec⟩ := Prod.mk.inj hobs
  rw [hs] at hslot
  refine ⟨s, hs, hmie, ?_, Except.ok.inj hslot, by decide, hexec⟩
  rw [hret]
  decide

/-- The same handler, entered with interrupts on. -/
theorem mret_restores_enabled :
    let s : Mcu .linker := { program (List.replicate 27 0 ++ [0x30200073]) with
      csr := (Csr.reset.writeCsr CSR_MTVEC 0x80000000).writeCsr CSR_MSTATUS 8 }
    ∃ u, (s.takeTrap ECALL_FROM_M_MODE).executeInstruction
        = .ok (STATUS_OK, u)
      ∧ u.pc = s.returnAddr ECALL_FROM_M_MODE
      ∧ u.csr.getMie = s.csr.getMie := by
  intro s
  have hfetch : (s.takeTrap ECALL_FROM_M_MODE).Fetches 0x30200073 := by
    unfold Fetches
    decide +kernel
  obtain ⟨u, hexec, hpc, hmie⟩ := mret_restores_iff s
    (s.takeTrap ECALL_FROM_M_MODE) ECALL_FROM_M_MODE 0x30200073 .refl hfetch
    (by decide) (by decide +kernel)
  exact ⟨u, hexec, hpc, hmie.2 (.inl (by decide +kernel))⟩

end Mcu

end T89Emu
