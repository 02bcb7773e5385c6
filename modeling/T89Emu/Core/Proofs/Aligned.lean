/-
The alignment of the program counter.

The next-pc unit looks at every address it computes, MRET's included,
and the program counter takes it only if it is a multiple of 4
(`aligned_of_executeInstruction`). Trap entry is the one source that
looks at nothing: it adds a vector slot to `mtvec`, a register that
guest code may fill with anything. So the program counter stays aligned
along a run exactly when `mtvec` is a multiple of 4 whenever a trap is
entered (`TrapsAligned`); once it is misaligned there is nothing to
fetch, and the cycle ends where the trap went (`fetch_of_misaligned`).
-/
import T89Emu.Core.Proofs.Interrupt
import T89Emu.Core.Proofs.Step

namespace T89Emu

open Bytes Cpp Run

variable {L : Layout}

namespace Mcu

-- ================================================ statement vocabulary

/-- The program counter is a multiple of 4. -/
def PcAligned (s : Mcu L) : Prop := s.pc.toNat % 4 = 0

/-- `mtvec` is a multiple of 4 when a trap is entered in the cycle:
before it if an interrupt is due, and after the instruction attempted if
that raises an exception. -/
structure TrapsAligned (s : Mcu L) : Prop where
  interrupt : s.Due → s.csr.getMtvec.toNat % 4 = 0
  exception : ∀ code t,
    s.serviceInterrupts.executeInstruction = .ok (code, t) →
    code ≠ STATUS_OK → t.csr.getMtvec.toNat % 4 = 0

-- ====================================================== the parts of a cycle

/-- Vector slots are as aligned as the base of the table. -/
theorem slot_aligned_iff (base offset : U32) :
    (base + 4 * offset).toNat % 4 = 0 ↔ base.toNat % 4 = 0 := by
  rw [BitVec.toNat_add, BitVec.toNat_mul]
  show (base.toNat + 4 * offset.toNat % 2 ^ 32) % 2 ^ 32 % 4 = 0 ↔ _
  omega

/-- A trap goes to an aligned address exactly when `mtvec` is one. -/
theorem pcAligned_takeTrap (s : Mcu L) (mcause : U32) :
    (s.takeTrap mcause).PcAligned ↔ s.csr.getMtvec.toNat % 4 = 0 := by
  unfold PcAligned
  rw [(takeTrap_frame s mcause).1]
  exact slot_aligned_iff _ _

/-- So does an interrupt that is due. -/
theorem pcAligned_interrupt {s : Mcu L} (h : s.Due) :
    s.serviceInterrupts.PcAligned ↔ s.csr.getMtvec.toNat % 4 = 0 := by
  unfold PcAligned
  rw [(interrupt_entry h).1]
  exact slot_aligned_iff _ _

/-- An instruction moves the program counter to aligned addresses
only. -/
theorem aligned_of_executeInstruction {s t : Mcu L} {code : U32}
    (hs : s.PcAligned) (h : s.executeInstruction = .ok (code, t)) :
    t.PcAligned := by
  rcases executeInstruction_cases h with
    ⟨rfl, -, -⟩ | ⟨w, u, -, hu, ⟨-, -, rfl⟩ | ⟨hal, -, rfl⟩⟩
  · exact hs
  · show u.pc.toNat % 4 = 0
    rw [hu.frame.1]
    exact hs
  · exact hal

/-- At a misaligned program counter nothing is fetched: a code is
returned, and nothing has changed. -/
theorem fetch_of_misaligned {s : Mcu L} (h : ¬ s.PcAligned) :
    ∃ code, code ≠ STATUS_OK ∧ s.executeInstruction = .ok (code, s) := by
  have hrefused : ∃ code, code ≠ STATUS_OK
      ∧ s.busRead s.pc WORD = .ok (code, none) := by
    unfold busRead
    cases hsel : bus.select L.device s.pc with
    | none => exact ⟨_, by decide, Bus.read_of_select_none hsel⟩
    | some k =>
        rw [Bus.read_of_select hsel,
          MemoryDevice.read_misaligned isAccessSize_word h]
        exact ⟨_, by decide, rfl⟩
  obtain ⟨code, hne, hread⟩ := hrefused
  refine ⟨code, hne, ?_⟩
  unfold executeInstruction
  rw [hread, ok_bind]
  exact if_pos hne

-- ============================================================== one cycle

/-- A cycle whose traps are entered with an aligned `mtvec` keeps the
program counter aligned. -/
theorem aligned_of_trapsAligned {s s' : Mcu L} (hs : s.PcAligned)
    (htraps : s.TrapsAligned) (h : s.nextInstruction = .ok s') :
    s'.PcAligned := by
  have hservice : s.serviceInterrupts.PcAligned := by
    by_cases hdue : s.Due
    · exact (pcAligned_interrupt hdue).2 (htraps.interrupt hdue)
    · rw [serviceInterrupts_of_not_due hdue]
      exact hs
  rcases nextInstruction_cases h with
    hfirst | ⟨code, t, status, hfirst, hcode, hsecond⟩
  · exact aligned_of_executeInstruction hservice hfirst
  · have htvec := htraps.exception code t hfirst hcode
    exact aligned_of_executeInstruction ((pcAligned_takeTrap t code).2 htvec)
      hsecond

/-- An exception entered with a misaligned `mtvec` ends the cycle at its
vector slot. -/
theorem misaligned_of_exception {s t : Mcu L} {code : U32}
    (hfirst : s.serviceInterrupts.executeInstruction = .ok (code, t))
    (hcode : code ≠ STATUS_OK) (htvec : t.csr.getMtvec.toNat % 4 ≠ 0) :
    ∃ s', s.nextInstruction = .ok s' ∧ ¬ s'.PcAligned := by
  have hmis : ¬ (t.takeTrap code).PcAligned :=
    fun h => htvec ((pcAligned_takeTrap t code).1 h)
  obtain ⟨status, -, hsecond⟩ := fetch_of_misaligned hmis
  refine ⟨t.takeTrap code, ?_, hmis⟩
  unfold nextInstruction
  rw [attempt_of_exception hfirst hcode, hsecond]
  rfl

/-- A cycle in which some trap is entered with a misaligned `mtvec` ends
at a misaligned address. -/
theorem misaligned_of_not_trapsAligned {s : Mcu L}
    (h : ¬ s.TrapsAligned) :
    ∃ s', s.nextInstruction = .ok s' ∧ ¬ s'.PcAligned := by
  by_cases hinterrupt : s.Due ∧ s.csr.getMtvec.toNat % 4 ≠ 0
  · obtain ⟨hdue, htvec⟩ := hinterrupt
    have hmis : ¬ s.serviceInterrupts.PcAligned :=
      fun h => htvec ((pcAligned_interrupt hdue).1 h)
    -- nothing can be fetched there, and the second trap goes astray too
    obtain ⟨code, hcode, hfirst⟩ := fetch_of_misaligned hmis
    refine misaligned_of_exception hfirst hcode ?_
    have hkept : s.serviceInterrupts.csr.getMtvec = s.csr.getMtvec :=
      (interrupt_frame hdue).2.2.2 _ (by decide) (by decide) (by decide)
        (by decide)
    rw [hkept]
    exact htvec
  · by_contra hall
    refine h ⟨fun hdue => ?_, fun code t hfirst hcode => ?_⟩
    · by_contra htvec
      exact hinterrupt ⟨hdue, htvec⟩
    · by_contra htvec
      exact hall (misaligned_of_exception hfirst hcode htvec)

-- ================================================================ the run

/-- From an aligned entry point the program counter is a multiple of 4
after every call of `nextInstruction` exactly when `mtvec` is one
whenever a call enters a trap. -/
theorem pc_aligned_along_iff (L : Layout) (entryPc : U32)
    (firmware : (L.device .rom).Mem) (hentry : entryPc.toNat % 4 = 0)
    (n : Nat) :
    HoldsAlong nextInstruction PcAligned (boot L entryPc firmware) n
      ↔ ∀ m < n, ∀ t,
          steps nextInstruction m (boot L entryPc firmware) = .ok t →
          t.TrapsAligned := by
  have hboot : (boot L entryPc firmware).PcAligned := hentry
  exact holds_along_iff hboot
    (fun _ _ hu htraps hv => aligned_of_trapsAligned hu htraps hv)
    (fun _ _ htraps => misaligned_of_not_trapsAligned htraps) n

/-- The program writes 2 to `mtvec` and then meets the word 0, which is
no instruction. -/
theorem misaligned_vector_base :
    let s := program [0x00200093, 0x30509073, 0]
    (steps nextInstruction 3 s).map (·.pc) = .ok 0x4a
      ∧ ¬ HoldsAlong nextInstruction PcAligned s 3 := by
  intro s
  have hrun : (steps nextInstruction 3 s).map (·.pc) = .ok 0x4a := by
    decide +kernel
  refine ⟨hrun, fun h => ?_⟩
  obtain ⟨t, ht, hpc⟩ := map_eq_ok.1 hrun
  have hal : t.pc.toNat % 4 = 0 := h 3 (Nat.le_refl 3) t ht
  rw [hpc] at hal
  exact absurd hal (by decide)

/-- With `mtvec` left at 0 the same word traps to an aligned slot. -/
theorem aligned_vector_base :
    HoldsAlong nextInstruction PcAligned (program [0]) 1 := by
  refine (pc_aligned_along_iff .linker 0x80000000 _ (by decide) 1).2 ?_
  intro m hm t ht
  obtain rfl : m = 0 := by omega
  obtain rfl := Except.ok.inj ht
  refine ⟨fun _ => rfl, fun code u hfirst _ => ?_⟩
  have hrun : (program [0]).serviceInterrupts.executeInstruction
      = .ok (code, u) := hfirst
  have htvec : (program [0]).serviceInterrupts.executeInstruction.map
      (fun r => r.2.csr.getMtvec.toNat % 4) = .ok 0 := by decide +kernel
  rw [hrun] at htvec
  exact Except.ok.inj htvec

end Mcu

end T89Emu
