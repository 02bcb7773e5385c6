/-
`mip` as a mirror of the CLINT.

The pending bits are derived state: after a cycle of the CLINT the timer
bit has to say whether mcycle has reached mtimecmp, and the software bit
whether the msip word is 1 (`Mirrors`). The cycle computes the timer bit
in both directions and sets the software bit only. So the mirror is
right after a cycle exactly when the software bit was clear before it or
msip is 1 (`mirrors_iff`): once set, the bit stays until guest code
clears it in `mip` itself.
-/
import T89Emu.Core.Proofs.Interrupt

namespace T89Emu

open Bytes Cpp Run

variable {L : Layout}

namespace ClintMemoryDevice

-- ================================================ statement vocabulary

/-- After the cycle the pending bits say what the CLINT's registers say,
and no other bit of any CSR has changed. -/
structure Mirrors (mem : Mem) (csr : Csr) : Prop where
  timer : (nextCycle mem csr).2.getMtip = 1
    ↔ mcycle (nextCycle mem csr).1 ≥ mtimecmp (nextCycle mem csr).1
  software : (nextCycle mem csr).2.getMsip = 1
    ↔ msip (nextCycle mem csr).1 = 1
  bits : ∀ i, i ≠ MIP_MTIP_MASK → i ≠ MIP_MSIP_MASK →
    ((nextCycle mem csr).2.readCsr CSR_MIP).getLsbD i
      = (csr.readCsr CSR_MIP).getLsbD i
  others : ∀ a, a ≠ CSR_MIP →
    (nextCycle mem csr).2.readCsr a = csr.readCsr a

/-- No software interrupt is pending that msip does not call for. -/
def NotStale (mem : Mem) (csr : Csr) : Prop :=
  csr.getMsip = 1 → msip mem = 1

-- =============================================================== the bits

variable (mem : Mem) (csr : Csr)

/-- The bits of `mip` after the cycle: the timer bit is computed, the
software bit is joined by msip. -/
theorem getLsbD_mip_nextCycle (i : Nat) :
    ((nextCycle mem csr).2.readCsr CSR_MIP).getLsbD i
      = (if i = MIP_MTIP_MASK then
          decide (mcycle mem + 1 ≥ mtimecmp mem)
        else (csr.readCsr CSR_MIP).getLsbD i
          || (decide (i = MIP_MSIP_MASK) && decide (msip mem = 1))) := by
  have htimer : ∀ i, ((if mcycle mem + 1 ≥ mtimecmp mem then csr.setMtip
        else csr.resetMtip).readCsr CSR_MIP).getLsbD i
      = if i = MIP_MTIP_MASK then
          decide (mcycle mem + 1 ≥ mtimecmp mem)
        else (csr.readCsr CSR_MIP).getLsbD i := by
    intro i
    unfold Csr.setMtip Csr.resetMtip
    by_cases hdue : mcycle mem + 1 ≥ mtimecmp mem
    · rw [if_pos hdue, decide_eq_true hdue,
        Csr.getLsbD_setBit _ _ (by decide)]
      by_cases hi : i = MIP_MTIP_MASK
      · simp [hi]
      · simp [hi]
    · rw [if_neg hdue, decide_eq_false hdue,
        Csr.getLsbD_resetBit _ _ (by decide)]
      by_cases hi : i = MIP_MTIP_MASK
      · simp [hi]
      · simp [hi]
  have hsoft : (nextCycle mem csr).2
      = if msip mem = 1 then
          (if mcycle mem + 1 ≥ mtimecmp mem then csr.setMtip
            else csr.resetMtip).setMsip
        else if mcycle mem + 1 ≥ mtimecmp mem then csr.setMtip
          else csr.resetMtip := by
    rw [← msip_nextCycle mem csr, ← mcycle_nextCycle mem csr,
      ← mtimecmp_nextCycle mem csr]
    rfl
  rw [hsoft]
  by_cases hmsip : msip mem = 1
  · rw [if_pos hmsip]
    unfold Csr.setMsip
    rw [Csr.getLsbD_setBit _ _ (by decide), htimer]
    by_cases hi : i = MIP_MTIP_MASK
    · simp [hi, MIP_MTIP_MASK, MIP_MSIP_MASK]
    · simp [hi, hmsip]
  · rw [if_neg hmsip, htimer, decide_eq_false hmsip]
    simp

/-- The software bit after the cycle: set by msip, and kept. -/
theorem getMsip_nextCycle :
    (nextCycle mem csr).2.getMsip = 1 ↔ csr.getMsip = 1 ∨ msip mem = 1 := by
  unfold Csr.getMsip
  rw [Csr.getBit_eq_one_iff, Csr.getBit_eq_one_iff, getLsbD_mip_nextCycle,
    if_neg (by decide : MIP_MSIP_MASK ≠ MIP_MTIP_MASK)]
  simp

/-- One cycle mirrors the CLINT exactly when no stale software interrupt
was pending. -/
theorem mirrors_iff : Mirrors mem csr ↔ NotStale mem csr := by
  unfold NotStale
  constructor
  · intro h hpending
    have hsoft := h.software.1 ((getMsip_nextCycle mem csr).2 (.inl hpending))
    rwa [msip_nextCycle] at hsoft
  · intro h
    exact {
      timer := by
        rw [getMtip_nextCycle, mcycle_nextCycle, mtimecmp_nextCycle]
      software := by
        rw [getMsip_nextCycle, msip_nextCycle, or_iff_right_of_imp h]
      bits := by
        intro i htimer hsoft
        rw [getLsbD_mip_nextCycle, if_neg htimer]
        simp [hsoft]
      others := fun a ha => readCsr_nextCycle_of_ne mem csr ha }

end ClintMemoryDevice

namespace Mcu

-- ================================================================ the run

/-- The next cycle mirrors the CLINT in `mip`. -/
def Mirrors (s : Mcu L) : Prop :=
  ClintMemoryDevice.Mirrors (s.mem .clint) s.csr

/-- No software interrupt is pending that msip does not call for. -/
def NotStale (s : Mcu L) : Prop :=
  ClintMemoryDevice.NotStale (s.mem .clint) s.csr

/-- In whatever state, the cycle mirrors the CLINT exactly when no stale
software interrupt is pending; so every cycle of a run does exactly when
none is pending in any state reached. -/
theorem pending_mirrored_along_iff (L : Layout) :
    (∀ s : Mcu L, s.Mirrors ↔ s.NotStale)
      ∧ ∀ (entryPc : U32) (firmware : (L.device .rom).Mem) (n : Nat),
        HoldsAlong nextInstruction Mirrors (boot L entryPc firmware) n
          ↔ HoldsAlong nextInstruction NotStale (boot L entryPc firmware)
            n := by
  have hstep : ∀ s : Mcu L, s.Mirrors ↔ s.NotStale := fun s =>
    ClintMemoryDevice.mirrors_iff (s.mem .clint) s.csr
  refine ⟨hstep, fun entryPc firmware n => ?_⟩
  unfold HoldsAlong
  exact forall₄_congr fun m hm t ht => hstep t

/-- The program sets msip to 1 and back to 0. The cycle after that leaves
the software interrupt pending. -/
theorem msip_cleared_still_pending :
    let s := program [0x300000b7, 0x00100113, 0x0020aa23, 0x0000aa23]
    (steps nextInstruction 4 s).map (fun t =>
        (ClintMemoryDevice.msip (t.nextCycle.mem .clint),
          t.nextCycle.csr.getMsip)) = .ok (0, 1)
      ∧ ¬ HoldsAlong nextInstruction Mirrors s 4 := by
  intro s
  have hrun : (steps nextInstruction 4 s).map (fun t =>
        (ClintMemoryDevice.msip (t.nextCycle.mem .clint),
          t.nextCycle.csr.getMsip)) = .ok (0, 1) := by
    decide +kernel
  refine ⟨hrun, fun h => ?_⟩
  obtain ⟨t, ht, hobs⟩ := map_eq_ok.1 hrun
  obtain ⟨hmsip, hpending⟩ := Prod.mk.inj hobs
  have hone := (h 4 (Nat.le_refl 4) t ht).software.1 hpending
  rw [← nextCycle_clint, hmsip] at hone
  exact absurd hone (by decide)

end Mcu

end T89Emu
