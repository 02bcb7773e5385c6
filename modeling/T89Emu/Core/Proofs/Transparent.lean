/-
Transparent interrupts.

The shortest handler there is: the vector slot jumps to a bare MRET. The
guest must not be able to tell that it ran (`Transparent`). The first
cycle counts, enters the trap and executes the jump (`jump_cycle`); the
second one counts, finds interrupts off and executes the MRET
(`return_cycle`).

A word is at an address when the bus dispatches the address to ROM or
RAM and the four bytes there spell it (`WordAt`). That is what a fetch
goes by; in the linker script's layout it is the same as lying inside
the device (`wordAt_of_owns`).
-/
import T89Emu.Core.Proofs.Bounds
import T89Emu.Core.Proofs.Decode
import T89Emu.Core.Proofs.TrapReturn

namespace T89Emu

open Bytes Cpp Run

variable {L : Layout}

namespace Mcu

-- ================================================ statement vocabulary

/-- The word lies at the 4-aligned address, in ROM or RAM. -/
def WordAt (s : Mcu L) (addr w : U32) : Prop :=
  ∃ k, (k = .rom ∨ k = .ram) ∧ bus.select L.device addr = some k
    ∧ addr.toNat % 4 = 0
    ∧ ∃ h : (L.device k).getAddress addr + 4
        ≤ (L.device k).deviceSize.toNat,
      ((s.mem k).peek ((L.device k).getAddress addr) 4 h).setWidth 32 = w

/-- What the guest may notice of an interrupt: time has passed, and the
CSRs that a trap writes have been written. -/
structure Transparent (s u : Mcu L) : Prop where
  pc : u.pc = s.pc
  nextPc : u.nextPc = s.pc
  rf : u.rf = s.rf
  mem : ∀ k, k ≠ .clint → u.mem k = s.mem k
  mie : u.csr.getMie = 1
  csr : ∀ a, a ≠ CSR_MSTATUS → a ≠ CSR_MIP → a ≠ CSR_MEPC →
    a ≠ CSR_MCAUSE → u.csr.readCsr a = s.csr.readCsr a
  mcycle : ClintMemoryDevice.mcycle (u.mem .clint)
    = ClintMemoryDevice.mcycle (s.mem .clint) + 2
  clint : ∀ i : Fin CLINT_SIZE.toNat, 8 ≤ i.val →
    u.mem .clint i = s.mem .clint i

-- ============================================================== the words

/-- A word that lies in ROM or RAM is served by the bus, also after the
CLINT has counted. -/
theorem WordAt.busRead {s t : Mcu L} {addr w : U32} (h : s.WordAt addr w)
    (hmem : ∀ k, k ≠ .clint → t.mem k = s.mem k) :
    t.busRead addr WORD = .ok (STATUS_OK, some w) := by
  obtain ⟨k, hk, hsel, hal, hin, rfl⟩ := h
  have hclint : k ≠ .clint := by
    rcases hk with rfl | rfl
    · decide
    · decide
  have hwidth : (L.device k).readWidth WORD = 4 := by
    unfold MemoryDevice.readWidth
    rw [Layout.device_cls, if_neg hclint]
  unfold Mcu.busRead
  rw [Bus.read_of_select hsel, hmem k hclint,
    MemoryDevice.read_eq isAccessSize_word hal, hwidth,
    MemoryDevice.loadAt_of_le hin]
  rfl

/-- In the linker script's layout, a word inside ROM or RAM is where the
bus looks for it. -/
theorem wordAt_of_owns {s : Mcu .linker} {addr w : U32} {k : DeviceClass}
    (hk : k = .rom ∨ k = .ram) (howns : (Layout.linker.device k).Owns addr)
    (hal : addr.toNat % 4 = 0)
    (hword : ∃ h : (Layout.linker.device k).getAddress addr + 4
        ≤ (Layout.linker.device k).deviceSize.toNat,
      ((s.mem k).peek ((Layout.linker.device k).getAddress addr) 4
        h).setWidth 32 = w) : s.WordAt addr w :=
  ⟨k, hk, linker_select_of_owns howns, hal, hword⟩

-- ========================================================= the two cycles

/-- `jal x0` goes to its target and does nothing else. -/
theorem executeInstruction_jump {s : Mcu L} {w : U32} (hw : s.Fetches w)
    (hjal : opcodeOf w = .JAL) (hrd : rd w = 0#5)
    (hal : (s.nextPc + Rv32.jImmediate w).toNat % 4 = 0) :
    s.executeInstruction
      = .ok (STATUS_OK, { s with
          nextPc := s.nextPc + Rv32.jImmediate w
          pc := s.nextPc + Rv32.jImmediate w }) := by
  have hret : Retired s w s := by
    have hlink : Retired s w (s.writeReg (s.pc + 4) (rd w)) :=
      .writeback (.link (.inl hjal))
    rw [hrd] at hlink
    unfold writeReg at hlink
    rwa [s.rf.write_zero] at hlink
  have htarget : s.target w = s.nextPc + Rv32.jImmediate w := by
    unfold target NextPc.update
    rw [hjal, getImmediate_jal hjal]
  rw [executeInstruction_of_retired hw hret, htarget,
    if_neg (not_not.2 hal)]

/-- The first cycle, when an interrupt is due: the trap entry and the
jump in the vector slot. -/
theorem jump_cycle {s : Mcu L} {w : U32} (hdue : s.Due)
    (hw : s.serviceInterrupts.Fetches w) (hjal : opcodeOf w = .JAL)
    (hrd : rd w = 0#5)
    (hal : (s.serviceInterrupts.pc + Rv32.jImmediate w).toNat % 4 = 0) :
    ∃ t, s.nextInstruction = .ok t
      ∧ t.pc = s.serviceInterrupts.pc + Rv32.jImmediate w
      ∧ t.rf = s.rf ∧ t.mem = s.nextCycle.mem
      ∧ t.csr = s.serviceInterrupts.csr := by
  obtain ⟨hnext, hrf, hmem, -⟩ := interrupt_frame hdue
  have hexec := executeInstruction_jump hw hjal hrd (by rwa [hnext])
  have hcycle : s.nextInstruction = .ok { s.serviceInterrupts with
      nextPc := s.serviceInterrupts.nextPc + Rv32.jImmediate w
      pc := s.serviceInterrupts.nextPc + Rv32.jImmediate w } := by
    unfold nextInstruction
    exact attempt_of_ok hexec
  exact ⟨_, hcycle, by rw [hnext], hrf, hmem, rfl⟩

/-- The second cycle, with interrupts off: the MRET. -/
theorem return_cycle {t : Mcu L} {w : U32} (hoff : t.csr.getMie = 0)
    (hw : t.nextCycle.Fetches w) (hmret : IsMret w)
    (hal : t.csr.getMepc.toNat % 4 = 0) :
    t.nextInstruction
      = .ok { t.nextCycle with
          csr := mretCsr t.nextCycle.csr
          nextPc := t.csr.getMepc
          pc := t.csr.getMepc } := by
  have hepc : t.nextCycle.csr.getMepc = t.csr.getMepc :=
    t.nextCycle_frame.2.2.2.2 _ (by decide)
  have hexec := executeInstruction_mret hw hmret (by rwa [hepc])
  rw [hepc] at hexec
  unfold nextInstruction
  rw [serviceInterrupts_of_not_due (not_due_of_getMie hoff),
    attempt_of_ok hexec]

/-- Two cycles of the CLINT with an interrupt entry between them. -/
theorem clint_two_cycles {s t : Mcu L} (hmem : t.mem = s.nextCycle.mem) :
    ClintMemoryDevice.mcycle (t.nextCycle.mem .clint)
        = ClintMemoryDevice.mcycle (s.mem .clint) + 2
      ∧ ∀ i : Fin CLINT_SIZE.toNat, 8 ≤ i.val →
        t.nextCycle.mem .clint i = s.mem .clint i := by
  constructor
  · rw [mcycle_after_nextCycle, hmem, mcycle_after_nextCycle,
      BitVec.add_assoc]
    rfl
  · intro i hi
    rw [clint_above_nextCycle t hi, hmem, clint_above_nextCycle s hi]

-- ============================================================== the result

/-- An interrupt that the next cycle reports, with a vector slot that
jumps to a bare MRET, is transparent: two cycles later the interrupted
instruction is up again, and the guest can tell by the time only. -/
theorem bare_mret_transparent (s : Mcu L) (jump : U32)
    (hal : s.pc.toNat % 4 = 0)
    (hint : s.nextCycle.checkInterrupts.1 = true)
    (hjump : s.WordAt (s.csr.getMtvec
      + 4 * (s.nextCycle.checkInterrupts.2 - 0x80000000)) jump)
    (hjal : Rv32.opcode jump = Rv32.JAL) (hrd : rd jump = 0#5)
    (hmret : s.WordAt (s.csr.getMtvec
      + 4 * (s.nextCycle.checkInterrupts.2 - 0x80000000)
      + Rv32.jImmediate jump) Rv32.MRET) :
    ∃ t u, s.nextInstruction = .ok t ∧ t.nextInstruction = .ok u
      ∧ Transparent s u := by
  have hdue : s.Due := by
    by_contra hnot
    rw [checkInterrupts_nextCycle, if_neg hnot] at hint
    cases hint
  rw [checkInterrupts_nextCycle, if_pos hdue] at hjump hmret
  dsimp only at hjump hmret
  obtain ⟨hslot, hepc, -⟩ := interrupt_entry hdue
  rw [← hslot] at hjump hmret
  obtain ⟨-, -, hmem, hcsr⟩ := interrupt_frame hdue
  obtain ⟨hoff, hpie⟩ := interrupt_enables hdue
  have hkeep := s.nextCycle_frame.2.2.2.1
  -- the first cycle ends at the MRET
  obtain ⟨_, -, -, htarget, -⟩ := id hmret
  have hfetch : s.serviceInterrupts.Fetches jump := by
    refine hjump.busRead fun k hk => ?_
    rw [hmem, hkeep k hk]
  obtain ⟨t, hfirst, htpc, htrf, htmem, htcsr⟩ := jump_cycle hdue hfetch
    (opcodeOf_of_opcode hjal) hrd htarget
  -- the second one executes it
  have hback : t.csr.getMepc = s.pc := by
    rw [htcsr]
    exact hepc
  have htkeep : ∀ k, k ≠ .clint → t.nextCycle.mem k = s.mem k := by
    intro k hk
    rw [t.nextCycle_frame.2.2.2.1 k hk, htmem, hkeep k hk]
  have hfetch' : t.nextCycle.Fetches Rv32.MRET := by
    unfold Fetches
    rw [t.nextCycle_frame.2.1, htpc]
    exact hmret.busRead htkeep
  have hsecond := return_cycle (by rw [htcsr]; exact hoff) hfetch'
    (by decide) (by rw [hback]; exact hal)
  refine ⟨t, _, hfirst, hsecond, ?_⟩
  obtain ⟨hmcycle, hclint⟩ := clint_two_cycles htmem
  exact {
    pc := hback
    nextPc := hback
    rf := htrf
    mem := htkeep
    mie := by
      refine (getMie_mretCsr _).2 (.inr ?_)
      refine (t.getBit_nextCycle _ (by decide)).trans ?_
      rw [htcsr]
      exact hpie
    csr := fun a hstatus hip hepc' hcause => by
      show (mretCsr t.nextCycle.csr).readCsr a = s.csr.readCsr a
      rw [readCsr_mretCsr_of_ne _ hstatus,
        t.nextCycle_frame.2.2.2.2 a hip, htcsr,
        hcsr a hstatus hip hepc' hcause]
    mcycle := hmcycle
    clint := hclint }

/-- A timer interrupt at the start of ROM, `jal x0, 4` in its slot and
MRET behind it. -/
theorem timer_interrupt_transparent :
    let s : Mcu .linker := { program ([0x13] ++ List.replicate 6 0
        ++ [0x0040006f, 0x30200073]) with
      csr := ((Csr.reset.writeCsr CSR_MTVEC 0x80000000).writeCsr CSR_MSTATUS
        8).writeCsr CSR_MIE 0x80 }
    ∃ t u, s.nextInstruction = .ok t ∧ t.nextInstruction = .ok u
      ∧ Transparent s u := by
  intro s
  have hcause : s.nextCycle.checkInterrupts
      = (true, MACHINE_TIMER_INTERRUPT) := by decide +kernel
  have hjump : s.WordAt 0x8000001c 0x0040006f :=
    wordAt_of_owns (.inl rfl) (by decide) (by decide)
      ⟨by decide +kernel, by decide +kernel⟩
  have hmret : s.WordAt 0x80000020 Rv32.MRET :=
    wordAt_of_owns (.inl rfl) (by decide) (by decide)
      ⟨by decide +kernel, by decide +kernel⟩
  refine bare_mret_transparent s 0x0040006f (by decide +kernel) ?_ ?_
    (by decide) (by decide) ?_
  · rw [hcause]
  · rw [hcause]
    exact hjump
  · rw [hcause]
    exact hmret

end Mcu

end T89Emu
