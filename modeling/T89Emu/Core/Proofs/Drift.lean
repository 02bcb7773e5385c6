/-
The program counter and the next-pc register.

`ProgramCounter` and `NextPc` each keep an address, and jumps and
branches are relative to the second while the fetch uses the first. They
agree (`Synced`) before the first cycle; the question is whether they
still do after any number of cycles.

# The one way to drift

An instruction with a misaligned target changes the next-pc register and
not the program counter. When that happens to the first instruction of a
cycle, the trap entry that follows sets both again. When it happens to
the instruction in the vector slot, whose status nobody looks at,
nothing does (`SlotDiverges`), and the two stay apart. The step facts
are `synced_of_not_diverges` and `drifts_of_diverges`;
`synced_along_iff` carries them along a run.
-/
import T89Emu.Core.Proofs.Step

namespace T89Emu

open Bytes Cpp Run

variable {L : Layout}

namespace Mcu

/-- The program counter and the next-pc register agree. -/
def Synced (s : Mcu L) : Prop := s.pc = s.nextPc

/-- The first instruction of the cycle raises an exception, and the one
in that exception's vector slot has a misaligned target. -/
def SlotDiverges (s : Mcu L) : Prop :=
  ∃ code t w, s.serviceInterrupts.executeInstruction = .ok (code, t)
    ∧ code ≠ STATUS_OK ∧ (t.takeTrap code).Fetches w
    ∧ ((t.takeTrap code).target w).toNat % 4 ≠ 0

-- ====================================================== the parts of a cycle

/-- Trap entry sets both. -/
theorem synced_takeTrap (s : Mcu L) (mcause : U32) :
    (s.takeTrap mcause).Synced := rfl

/-- An instruction that returns `STATUS_OK` leaves the two together. -/
theorem synced_of_ok {s t : Mcu L}
    (h : s.executeInstruction = .ok (STATUS_OK, t)) : t.Synced := by
  rcases executeInstruction_cases h with
    ⟨-, hne, -⟩ | ⟨w, u, -, -, ⟨-, hcode, -⟩ | ⟨-, -, rfl⟩⟩
  · exact absurd rfl hne
  · exact absurd hcode (by decide)
  · rfl

/-- So does one that returns a code, if its target is aligned. -/
theorem Synced.of_aligned {s t : Mcu L} {code : U32} (hs : s.Synced)
    (h : s.executeInstruction = .ok (code, t))
    (hal : ∀ w, s.Fetches w → (s.target w).toNat % 4 = 0) : t.Synced := by
  rcases executeInstruction_cases h with
    ⟨rfl, -, -⟩ | ⟨w, u, hw, -, ⟨hmis, -, -⟩ | ⟨-, -, rfl⟩⟩
  · exact hs
  · exact absurd (hal w hw) hmis
  · rfl

/-- While the two agree, an instruction with a misaligned target is a
jump, a branch or MRET, and all of these break out of the `switch`. -/
theorem Synced.exists_retired {s : Mcu L} (hs : s.Synced) {w : U32}
    (hw : s.Fetches w) (hmis : (s.target w).toNat % 4 ≠ 0) :
    ∃ t, Retired s w t := by
  have hpc := hw.aligned
  have hnext : (s.nextPc + 4).toNat % 4 = 0 := by
    rw [hs] at hpc
    rw [BitVec.toNat_add]
    show (s.nextPc.toNat + 4) % 2 ^ 32 % 4 = 0
    omega
  unfold target NextPc.update at hmis
  cases hop : opcodeOf w with
  | JAL => exact ⟨_, .writeback (.link (.inl hop))⟩
  | JALR => exact ⟨_, .writeback (.link (.inr hop))⟩
  | BTYPE => exact ⟨_, .branch hop⟩
  | PRIV =>
      rw [hop] at hmis
      dsimp only at hmis
      split at hmis
      · next hm => exact ⟨_, .system hop (executePriv_mret hm.1 hm.2)⟩
      · exact absurd hnext hmis
  | LUI => rw [hop] at hmis; exact absurd hnext hmis
  | AUIPC => rw [hop] at hmis; exact absurd hnext hmis
  | LOAD => rw [hop] at hmis; exact absurd hnext hmis
  | STORE => rw [hop] at hmis; exact absurd hnext hmis
  | ITYPE => rw [hop] at hmis; exact absurd hnext hmis
  | RTYPE => rw [hop] at hmis; exact absurd hnext hmis
  | other => rw [hop] at hmis; exact absurd hnext hmis

-- ============================================================== one cycle

/-- A cycle whose vector slot does not diverge leaves the two
together, even if they were apart before it. -/
theorem synced_of_not_diverges {s s' : Mcu L}
    (hslot : ¬ s.SlotDiverges) (h : s.nextInstruction = .ok s') :
    s'.Synced := by
  rcases nextInstruction_cases h with
    hfirst | ⟨code, t, status, hfirst, hcode, hsecond⟩
  · exact synced_of_ok hfirst
  · refine (synced_takeTrap t code).of_aligned hsecond fun w hw => ?_
    by_contra hmis
    exact hslot ⟨code, t, w, hfirst, hcode, hw, hmis⟩

/-- A cycle whose vector slot diverges ends with the two apart: the
program counter is aligned and the next-pc register is not. -/
theorem drifts_of_diverges {s : Mcu L} (hslot : s.SlotDiverges) :
    ∃ s', s.nextInstruction = .ok s' ∧ ¬ s'.Synced := by
  obtain ⟨code, t, w, hfirst, hcode, hw, hmis⟩ := hslot
  obtain ⟨u, hu⟩ := (synced_takeTrap t code).exists_retired hw hmis
  have hsecond := executeInstruction_of_retired hw hu
  rw [if_pos hmis] at hsecond
  refine ⟨{ u with nextPc := (t.takeTrap code).target w }, ?_, fun h => ?_⟩
  · unfold nextInstruction
    rw [attempt_of_exception hfirst hcode, hsecond]
    rfl
  · have hpc : u.pc = (t.takeTrap code).target w := h
    rw [← hpc, hu.frame.1] at hmis
    exact hmis hw.aligned

-- ================================================================ the run

/-- From boot, the two agree after every cycle of a run exactly when no
cycle of it starts in a state whose vector slot diverges. -/
theorem synced_along_iff (L : Layout) (entryPc : U32)
    (firmware : (L.device .rom).Mem) (n : Nat) :
    HoldsAlong nextInstruction Synced (boot L entryPc firmware) n
      ↔ ∀ m < n, ∀ t,
          steps nextInstruction m (boot L entryPc firmware) = .ok t →
          ¬ t.SlotDiverges := by
  have hboot : (boot L entryPc firmware).Synced := rfl
  have hkeep : ∀ u v : Mcu L, u.Synced → ¬ u.SlotDiverges →
      u.nextInstruction = .ok v → v.Synced := fun _ _ _ hslot h =>
    synced_of_not_diverges hslot h
  have hbreak : ∀ u : Mcu L, u.Synced → ¬ ¬ u.SlotDiverges →
      ∃ v, u.nextInstruction = .ok v ∧ ¬ v.Synced := fun _ _ hslot =>
    drifts_of_diverges (not_not.1 hslot)
  exact holds_along_iff hboot hkeep hbreak n

/-- The program sets `mtvec` to its own start and then meets the word 0,
whose vector slot holds `jal x0, 2`. After three cycles the two are
apart. -/
theorem vector_slot_drifts :
    let s := program ([0x800000b7, 0x30509073, 0] ++ List.replicate 15 0
      ++ [0x0020006f])
    (steps nextInstruction 3 s).map (fun t => (t.pc, t.nextPc))
        = .ok (0x80000048, 0x8000004a)
      ∧ ¬ HoldsAlong nextInstruction Synced s 3 := by
  intro s
  have hrun : (steps nextInstruction 3 s).map (fun t => (t.pc, t.nextPc))
      = .ok (0x80000048, 0x8000004a) := by decide +kernel
  refine ⟨hrun, fun h => ?_⟩
  obtain ⟨t, ht, hpcs⟩ := map_eq_ok.1 hrun
  obtain ⟨hpc, hnext⟩ := Prod.mk.inj hpcs
  have hsync : t.pc = t.nextPc := h 3 (Nat.le_refl 3) t ht
  rw [hpc, hnext] at hsync
  exact absurd hsync (by decide)

end Mcu

end T89Emu
