/-
The firmware's handlers under the emulator.

With interrupt.s in memory and its table in `mtvec`, a trap executes the
jump in its slot in the cycle that enters it. The handler of an exception
or of a software interrupt is a jump to itself, and interrupts are off,
so the guest is parked there for good (`exception_parks`,
`software_interrupt_parks`). That of the timer is a bare MRET, which
leaves the comparator as it is; the interrupt is due again as soon as
interrupts are on, and the guest has not executed an instruction of its
own in between (`timer_starves`).
-/
import T89Emu.Core.Proofs.Exception
import T89Emu.Core.Proofs.Place
import T89Emu.Core.Proofs.Spin
import T89Emu.Firmware.Interrupt
import T89Emu.Isa.Proofs.Encoding

namespace T89Emu

open Bytes Cpp Run

variable {L : Layout}

namespace Firmware

-- ================================================ statement vocabulary

/-- The words of interrupt.s lie in ROM or RAM from `base` on. -/
def Installed (s : Mcu L) (base : U32) : Prop :=
  ∀ i w, interruptSource.words[i]? = some w →
    s.WordAt (base + BitVec.ofNat 32 (4 * i)) w

/-- The handler is a jump to itself. -/
def Label.Spins (l : Label) : Prop :=
  (interruptSource.block l)[0]? = some (jal l)

instance (l : Label) : Decidable l.Spins :=
  inferInstanceAs (Decidable (_ = _))

/-- The guest is where it was, `2 * n` cycles later. -/
structure Stalled (n : Nat) (s t : Mcu L) : Prop where
  pc : t.pc = s.pc
  rf : t.rf = s.rf
  mem : ∀ k, k ≠ .clint → t.mem k = s.mem k
  clint : ∀ i : Fin CLINT_SIZE.toNat, 8 ≤ i.val →
    t.mem .clint i = s.mem .clint i
  mie : t.csr.getMie = 1
  csr : ∀ a, a ≠ CSR_MSTATUS → a ≠ CSR_MIP → a ≠ CSR_MEPC →
    a ≠ CSR_MCAUSE → t.csr.readCsr a = s.csr.readCsr a
  mcycle : ClintMemoryDevice.mcycle (t.mem .clint)
    = ClintMemoryDevice.mcycle (s.mem .clint) + BitVec.ofNat 64 (2 * n)

-- ============================================================ the words

theorem place_lt (l : Label) : interruptSource.place l < 2 ^ 17 := by
  cases l <;> decide

variable {s t : Mcu L} {base : U32}

theorem Installed.of_mem (h : Installed s base)
    (hmem : ∀ k, k ≠ .clint → t.mem k = s.mem k) : Installed t base :=
  fun i w hi => (h i w hi).of_mem hmem

/-- The word of a slot. -/
theorem Installed.slot (h : Installed s base) {i : Nat} {l : Label}
    (hslot : (interrupts ++ exceptions)[i]? = some l) :
    s.WordAt (base + BitVec.ofNat 32 (4 * i))
      (Rv32.Source.jump 0 (interruptSource.place l - i)).encode := by
  have hline : (interruptSource.block .vectorTable)[i]? = some (j l) := by
    show ((interrupts ++ exceptions).map j)[i]? = _
    rw [List.getElem?_map, hslot]
    rfl
  have hplace : interruptSource.place .vectorTable + i = i :=
    Nat.zero_add i
  have hword := Rv32.Source.words_place hline
  rw [hplace] at hword
  exact h i _ hword

/-- The first word of a handler that spins. -/
theorem Installed.spin (h : Installed s base) {l : Label}
    (hspins : l.Spins) :
    s.WordAt (l.address base) (Rv32.Source.jump 1
      (interruptSource.place l - interruptSource.place l)).encode :=
  h _ _ (Rv32.Source.words_place hspins)

/-- A slot leads to its handler. -/
theorem slot_lands {i : Nat} {l : Label} (hi : i < 2 ^ 17) :
    base + BitVec.ofNat 32 (4 * i)
        + Rv32.jImmediate (Rv32.Source.jump 0
          (interruptSource.place l - i)).encode
      = l.address base :=
  Rv32.Source.jump_lands 0 base hi (place_lt l)

/-- The table and so every label is aligned. -/
theorem Installed.aligned (h : Installed s base) (l : Label) :
    (l.address base).toNat % 4 = 0 := by
  obtain ⟨_, -, -, hal, -⟩ := h.slot (i := 0) rfl
  rw [Nat.mul_zero, BitVec.add_zero] at hal
  unfold Label.address
  rw [BitVec.toNat_add, BitVec.toNat_ofNat]
  omega

-- ============================================================= the traps

/-- What the core makes of a slot. -/
theorem Installed.enters (h : Installed s base) {i : Nat} {l : Label}
    (hslot : (interrupts ++ exceptions)[i]? = some l)
    (hpc : s.pc = base + BitVec.ofNat 32 (4 * i))
    (hsync : s.nextPc = s.pc) :
    s.executeInstruction = .ok (STATUS_OK, { s with
      nextPc := l.address base
      pc := l.address base }) := by
  have hword := h.slot hslot
  rw [← hpc] at hword
  have hi : i < 2 ^ 17 := by
    have hlt := (List.getElem?_eq_some_iff.1 hslot).1
    have hlen : (interrupts ++ exceptions).length = 28 := rfl
    omega
  have hlands : _ = l.address base := slot_lands hi
  rw [← hpc, ← hsync] at hlands
  obtain ⟨hop, hrd, -⟩ := jump_fields 0 (BitVec.ofInt 20
    (2 * (interruptSource.place l - i)))
  have hexec := Mcu.executeInstruction_jump (hword.busRead fun _ _ => rfl)
    hop hrd (by rw [hlands]; exact h.aligned l)
  rwa [hlands] at hexec

/-- With interrupts off, a handler that spins is entered for good. -/
theorem Installed.parks (h : Installed s base) {i : Nat} {l : Label}
    (hslot : (interrupts ++ exceptions)[i]? = some l) (hspins : l.Spins)
    (hpc : s.pc = base + BitVec.ofNat 32 (4 * i))
    (hsync : s.nextPc = s.pc) (hoff : s.csr.getMie = 0) :
    ∃ t, s.executeInstruction = .ok (STATUS_OK, t)
      ∧ ∀ n, ∃ u, steps Mcu.nextInstruction n t = .ok u
        ∧ u.pc = l.address base ∧ u.csr.getMie = 0
        ∧ (∀ a, a ≠ CSR_MIP → u.csr.readCsr a = s.csr.readCsr a)
        ∧ (∀ r, r ≠ 1#5 → u.rf.read r = s.rf.read r)
        ∧ ∀ k, k ≠ .clint → u.mem k = s.mem k := by
  have hparked : Mcu.Parked
      { s with nextPc := l.address base, pc := l.address base }
      (Rv32.Source.jump 1 (interruptSource.place l
        - interruptSource.place l)).encode :=
    ⟨(h.spin hspins).of_mem fun _ _ => rfl, Rv32.opcode_jWord ..,
      Rv32.Source.jImmediate_self .., rfl, hoff⟩
  refine ⟨_, h.enters hslot hpc hsync, fun n => ?_⟩
  obtain ⟨u, hrun, hu, hrests⟩ := hparked.runs n
  have hlink : rd (Rv32.Source.jump 1 (interruptSource.place l
      - interruptSource.place l)).encode = 1#5 := Rv32.rd_jWord ..
  rw [hlink] at hrests
  exact ⟨u, hrun, hrests.pc, hu.off, hrests.csr, hrests.rf, hrests.mem⟩

/-- Where the exceptions are handled. -/
theorem handler_of_exception {code : U32}
    (h : code ∈ Mcu.exceptionCodes) :
    (∃ l, exceptions[code.toNat]? = some l ∧ l ≠ .reserved ∧ l.Spins)
      ∧ 4 * Trap.vectorTableOffset code
        = BitVec.ofNat 32 (4 * (16 + code.toNat)) := by
  simp only [Mcu.exceptionCodes, List.mem_cons, List.not_mem_nil,
    or_false] at h
  rcases h with rfl | rfl | rfl | rfl | rfl | rfl | rfl
  · exact ⟨⟨.instructionAddressMisaligned, by decide⟩, rfl⟩
  · exact ⟨⟨.illegalInstruction, by decide⟩, rfl⟩
  · exact ⟨⟨.loadAddressMisaligned, by decide⟩, rfl⟩
  · exact ⟨⟨.loadAccessFault, by decide⟩, rfl⟩
  · exact ⟨⟨.storeAddressMisaligned, by decide⟩, rfl⟩
  · exact ⟨⟨.storeAccessFault, by decide⟩, rfl⟩
  · exact ⟨⟨.environmentCallMMode, by decide⟩, rfl⟩

/-- An interrupt entry goes to a slot of the table. -/
theorem interrupt_slot (hdue : s.Due) :
    ∃ i l, (interrupts ++ exceptions)[i]? = some l
      ∧ s.serviceInterrupts.pc
        = s.csr.getMtvec + BitVec.ofNat 32 (4 * i)
      ∧ (s.SoftwareDue → l = .machineSoftwareInterrupt)
      ∧ (¬ s.SoftwareDue → l = .machineTimerInterrupt) := by
  have hpc := (Mcu.interrupt_entry hdue).1
  unfold Mcu.dueCause at hpc
  by_cases hsoft : s.SoftwareDue
  · rw [if_pos hsoft] at hpc
    exact ⟨3, .machineSoftwareInterrupt, rfl, hpc, fun _ => rfl,
      fun h => absurd hsoft h⟩
  · rw [if_neg hsoft] at hpc
    exact ⟨7, .machineTimerInterrupt, rfl, hpc,
      fun h => absurd h hsoft, fun _ => rfl⟩

/-- The first part of a cycle leaves the program and the table where they
are. -/
theorem Installed.serviceInterrupts (h : Installed s s.csr.getMtvec) :
    Installed s.serviceInterrupts s.csr.getMtvec := by
  refine h.of_mem fun k hk => ?_
  by_cases hdue : s.Due
  · rw [(Mcu.interrupt_frame hdue).2.2.1]
    exact s.nextCycle_frame.2.2.2.1 k hk
  · rw [Mcu.serviceInterrupts_of_not_due hdue]
    exact s.nextCycle_frame.2.2.2.1 k hk

/-- Every exception of the guest ends in the handler of its code, and
there the guest stays: after any number of cycles it has not left it, its
interrupts are off, and `mcause` still has the code. But for the CLINT,
the CSRs of a trap, the handler's link register and that of a jump that
was refused, nothing has changed. `_reserved` is never reached. -/
theorem exception_parks (L : Layout) (s u : Mcu L) (code : U32) (n : Nat)
    (hinst : Installed s s.csr.getMtvec) (hsync : s.nextPc = s.pc)
    (hexec : s.serviceInterrupts.executeInstruction = .ok (code, u))
    (hne : code ≠ STATUS_OK) :
    ∃ l t, exceptions[code.toNat]? = some l ∧ l ≠ .reserved
      ∧ steps Mcu.nextInstruction (n + 1) s = .ok t
      ∧ t.pc = l.address s.csr.getMtvec ∧ t.csr.getMie = 0
      ∧ t.csr.readCsr CSR_MCAUSE = code
      ∧ t.csr.readCsr CSR_MEPC = s.returnAddr code
      ∧ (∀ r, r ≠ 1#5 → (∀ w, s.serviceInterrupts.Fetches w →
          opcodeOf w = .JAL ∨ opcodeOf w = .JALR → r ≠ rd w) →
        t.rf.read r = s.rf.read r)
      ∧ (∀ k, k ≠ .clint → t.mem k = s.mem k)
      ∧ ∀ a, a ≠ CSR_MSTATUS → a ≠ CSR_MIP → a ≠ CSR_MEPC →
        a ≠ CSR_MCAUSE → t.csr.readCsr a = s.csr.readCsr a := by
  obtain ⟨⟨l, hl, hreserved, hspins⟩, hoffset⟩ :=
    handler_of_exception (Mcu.exception_codes hexec hne)
  have hinst' := hinst.serviceInterrupts
  -- an interrupt would have led to a jump, which raises nothing
  have hdue : ¬ s.Due := by
    intro hdue
    obtain ⟨i, l, hslot, hpc, -⟩ := interrupt_slot hdue
    rw [hinst'.enters hslot hpc (Mcu.interrupt_frame hdue).1] at hexec
    exact hne (Prod.mk.inj (Except.ok.inj hexec)).1.symm
  have hcycle := Mcu.serviceInterrupts_of_not_due hdue
  obtain ⟨hrf, hpc, hnextPc, hmem, hcsr⟩ := s.nextCycle_frame
  have hsync' : s.serviceInterrupts.nextPc = s.serviceInterrupts.pc := by
    rw [hcycle, hnextPc, hpc, hsync]
  obtain ⟨hupc, humem, hucsr⟩ := Mcu.exception_frame hsync' hexec hne
  rw [hcycle] at hupc humem hucsr
  have htvec : u.csr.getMtvec = s.csr.getMtvec :=
    (hucsr _ (by decide)).trans (hcsr _ (by decide))
  have hkeep : ∀ k, k ≠ .clint → (u.takeTrap code).mem k = s.mem k :=
    fun k hk => (congrFun humem k).trans (hmem k hk)
  -- the slot of the code, and the run behind it
  have hslot : (interrupts ++ exceptions)[16 + code.toNat]? = some l := by
    have hlen : interrupts.length = 16 := rfl
    rw [← hlen, List.getElem?_append_right (Nat.le_add_right ..),
      Nat.add_sub_cancel_left]
    exact hl
  have hvector : (u.takeTrap code).pc
      = s.csr.getMtvec + BitVec.ofNat 32 (4 * (16 + code.toNat)) := by
    rw [(Mcu.takeTrap_frame u code).1, Mcu.vectorSlot, htvec, hoffset]
  obtain ⟨t, hfirst, hruns⟩ := (hinst.of_mem hkeep).parks hslot hspins
    hvector rfl (u.getMie_takeTrap code)
  obtain ⟨v, hrun, hvpc, hvoff, hvcsr, hvrf, hvmem⟩ := hruns n
  refine ⟨l, v, hl, hreserved, ?_, hvpc, hvoff, ?_, ?_,
    fun r hlink hjump => ?_, fun k hk => (hvmem k hk).trans (hkeep k hk),
    fun a hstatus hip hepc hcause => ?_⟩
  · rw [steps_succ_front]
    refine bind_eq_ok.2 ⟨t, ?_, hrun⟩
    show s.serviceInterrupts.attempt = _
    rw [Mcu.attempt_of_exception hexec hne, hfirst]
    rfl
  · rw [hvcsr _ (by decide), Mcu.readCsr_takeTrap_mcause]
  · rw [hvcsr _ (by decide), Mcu.readCsr_takeTrap_mepc, Mcu.returnAddr,
      hupc, hpc]
    rfl
  · rw [hvrf r hlink, (Mcu.takeTrap_frame u code).2.2.1,
      Mcu.exception_registers hsync' hexec hne hjump, hcycle, hrf]
  · rw [hvcsr a hip, Mcu.readCsr_takeTrap_of_ne u code hstatus hepc hcause,
      hucsr a hstatus, hcsr a hip]

/-- interrupt.s at the start of ROM, in use, and one word of a program
behind it. -/
def loaded (w mstatus mie : U32) : Mcu .linker :=
  { Mcu.program (interruptSource.words ++ [w]) with
    pc := 0x800000a4
    nextPc := 0x800000a4
    csr := ((Csr.reset.writeCsr CSR_MTVEC 0x80000000).writeCsr CSR_MSTATUS
      mstatus).writeCsr CSR_MIE mie }

theorem installed_loaded (w mstatus mie : U32) :
    Installed (loaded w mstatus mie) 0x80000000 := by
  intro i v hi
  have hlt : i < 41 := (List.getElem?_eq_some_iff.1 hi).1
  have hsize : 4 * 41 ≤ ROM_SIZE.toNat := by decide
  refine (Mcu.program_wordAt ?_ (by omega)).of_mem fun _ _ => rfl
  rw [List.getElem?_append_left hlt, hi]

/-- An ECALL. -/
theorem ecall_parks :
    ∃ t, steps Mcu.nextInstruction 1000001 (loaded 0x73 0 0) = .ok t
      ∧ t.pc = 0x8000009c ∧ t.csr.readCsr CSR_MCAUSE = 11 := by
  have hrun : ((loaded 0x73 0 0).serviceInterrupts.executeInstruction).map
      (·.1) = .ok ECALL_FROM_M_MODE := by decide +kernel
  obtain ⟨⟨code, u⟩, hexec, hcode⟩ := map_eq_ok.1 hrun
  obtain rfl : code = ECALL_FROM_M_MODE := hcode
  obtain ⟨l, t, hl, -, hsteps, hpc, -, hcause, -⟩ := exception_parks .linker
    (loaded 0x73 0 0) u ECALL_FROM_M_MODE 1000000
    (installed_loaded 0x73 0 0) rfl hexec (by decide)
  cases hl
  exact ⟨t, hsteps, hpc, hcause⟩

/-- So does a software interrupt: the handler neither clears the request
nor returns. -/
theorem software_interrupt_parks (L : Layout) (s : Mcu L) (n : Nat)
    (hinst : Installed s s.csr.getMtvec) (hdue : s.Due)
    (hsoft : s.SoftwareDue) :
    ∃ t, steps Mcu.nextInstruction (n + 1) s = .ok t
      ∧ t.pc = Label.machineSoftwareInterrupt.address s.csr.getMtvec
      ∧ t.csr.getMie = 0 ∧ t.csr.readCsr CSR_MEPC = s.pc
      ∧ (∀ r, r ≠ 1#5 → t.rf.read r = s.rf.read r)
      ∧ ∀ k, k ≠ .clint → t.mem k = s.mem k := by
  obtain ⟨i, l, hslot, hpc, hlabel, -⟩ := interrupt_slot hdue
  obtain rfl := hlabel hsoft
  obtain ⟨hsync, hrf, hmem, -⟩ := Mcu.interrupt_frame hdue
  obtain ⟨t, hfirst, hruns⟩ := hinst.serviceInterrupts.parks hslot
    (by decide) hpc hsync (Mcu.interrupt_enables hdue).1
  obtain ⟨u, hrun, hupc, huoff, hucsr, hurf, humem⟩ := hruns n
  refine ⟨u, ?_, hupc, huoff, ?_, ?_, ?_⟩
  · rw [steps_succ_front]
    exact bind_eq_ok.2 ⟨t, Mcu.attempt_of_ok hfirst, hrun⟩
  · rw [hucsr _ (by decide)]
    exact (Mcu.interrupt_entry hdue).2.1
  · intro r hr
    rw [hurf r hr, hrf]
  · intro k hk
    rw [humem k hk, hmem]
    exact s.nextCycle_frame.2.2.2.1 k hk

/-- The request, as the program leaves it in `msip`. -/
def requested : Mcu .linker :=
  let s := loaded 0x13 8 8
  { s with
    mem := Function.update s.mem .clint ((s.mem .clint).poke 20 4 1#32) }

theorem requested_parks :
    ∃ t, steps Mcu.nextInstruction 1000001 requested = .ok t
      ∧ t.pc = 0x80000074 := by
  have hinst : Installed requested 0x80000000 :=
    (installed_loaded 0x13 8 8).of_mem fun _ hk =>
      Function.update_of_ne hk ..
  obtain ⟨t, hsteps, hpc, -⟩ := software_interrupt_parks .linker requested
    1000000 hinst (by decide +kernel) (by decide +kernel)
  exact ⟨t, hsteps, hpc⟩

-- ============================================================= the timer

/-- The table leads to the MRET of the timer. -/
theorem Installed.timer (h : Installed s base) :
    s.WordAt (Label.machineTimerInterrupt.address base) Rv32.MRET :=
  have hmret : (interruptSource.block .machineTimerInterrupt)[0]?
      = some mret := rfl
  h _ _ (Rv32.Source.words_place hmret)

/-- A timer interrupt and its handler. -/
theorem timer_round (hinst : Installed s s.csr.getMtvec)
    (hal : s.pc.toNat % 4 = 0) (hdue : s.Due) (hsoft : ¬ s.SoftwareDue) :
    ∃ t u, s.nextInstruction = .ok t ∧ t.nextInstruction = .ok u
      ∧ t.pc = Label.machineTimerInterrupt.address s.csr.getMtvec
      ∧ Mcu.Transparent s u := by
  obtain ⟨i, l, hslot, hpc, -, hlabel⟩ := interrupt_slot hdue
  obtain rfl := hlabel hsoft
  obtain ⟨hsync, hrf, hmem, hcsr⟩ := Mcu.interrupt_frame hdue
  obtain ⟨hoff, hpie⟩ := Mcu.interrupt_enables hdue
  have hinst' := hinst.serviceInterrupts
  have hfirst := Mcu.attempt_of_ok (hinst'.enters hslot hpc hsync)
  -- the handler finds the interrupted program counter in `mepc`
  let t : Mcu L := { s.serviceInterrupts with
    nextPc := Label.machineTimerInterrupt.address s.csr.getMtvec
    pc := Label.machineTimerInterrupt.address s.csr.getMtvec }
  have hback : t.csr.getMepc = s.pc := (Mcu.interrupt_entry hdue).2.1
  have hfetch : t.nextCycle.Fetches Rv32.MRET :=
    hinst'.timer.busRead t.nextCycle_frame.2.2.2.1
  have hsecond := Mcu.return_cycle (t := t) hoff hfetch (by decide)
    (by rw [hback]; exact hal)
  obtain ⟨hmcycle, hclint⟩ := Mcu.clint_two_cycles hmem
  refine ⟨t, _, hfirst, hsecond, rfl, ?_⟩
  exact {
    pc := hback
    nextPc := hback
    rf := hrf
    mem := fun k hk => by
      refine (t.nextCycle_frame.2.2.2.1 k hk).trans ?_
      show s.serviceInterrupts.mem k = _
      rw [hmem]
      exact s.nextCycle_frame.2.2.2.1 k hk
    mie := (Mcu.getMie_mretCsr _).2
      (.inr ((t.getBit_nextCycle _ (by decide)).trans hpie))
    csr := fun a hstatus hip hepc hcause => by
      show (Mcu.mretCsr t.nextCycle.csr).readCsr a = s.csr.readCsr a
      rw [Mcu.readCsr_mretCsr_of_ne _ hstatus,
        t.nextCycle_frame.2.2.2.2 a hip]
      exact hcsr a hstatus hip hepc hcause
    mcycle := hmcycle
    clint := hclint }

variable {n : Nat}

/-- One more round. -/
theorem Stalled.next {u : Mcu L} (h : Stalled n s t)
    (h' : Mcu.Transparent t u) : Stalled (n + 1) s u where
  pc := h'.pc.trans h.pc
  rf := h'.rf.trans h.rf
  mem k hk := (h'.mem k hk).trans (h.mem k hk)
  clint i hi := (h'.clint i hi).trans (h.clint i hi)
  mie := h'.mie
  csr a hstatus hip hepc hcause := (h'.csr a hstatus hip hepc hcause).trans
    (h.csr a hstatus hip hepc hcause)
  mcycle := by
    rw [h'.mcycle, h.mcycle, BitVec.add_assoc, Nat.mul_succ,
      BitVec.ofNat_add]
    rfl

/-- The timer interrupt is still the one that is due. -/
theorem Stalled.due (h : Stalled n s t) (htimer : s.TimerDue)
    (hsoft : ¬ s.SoftwareDue)
    (hcount : (ClintMemoryDevice.mcycle (s.mem .clint)).toNat + 2 * n + 1
      < 2 ^ 64) : t.Due ∧ ¬ t.SoftwareDue := by
  have hmie : t.csr.readCsr CSR_MIE = s.csr.readCsr CSR_MIE :=
    h.csr _ (by decide) (by decide) (by decide) (by decide)
  have hcmp : ClintMemoryDevice.mtimecmp (t.mem .clint)
      = ClintMemoryDevice.mtimecmp (s.mem .clint) :=
    Buffer.peek_congr _ fun i hi _ => h.clint i hi
  have hmsip : ClintMemoryDevice.msip (t.mem .clint)
      = ClintMemoryDevice.msip (s.mem .clint) := by
    refine Buffer.peek_congr _ fun i hi _ => h.clint i ?_
    unfold ClintMemoryDevice.MSIP_OFFSET at hi
    omega
  refine ⟨⟨h.mie, .inr ⟨?_, ?_⟩⟩, ?_⟩
  · have hreached := htimer.1
    rw [h.mcycle, hcmp]
    rw [ge_iff_le, BitVec.le_def, BitVec.toNat_add] at hreached ⊢
    rw [BitVec.toNat_add, BitVec.toNat_ofNat]
    have hone : (1 : BitVec 64).toNat = 1 := rfl
    omega
  · show t.csr.getBit CSR_MIE MIE_MTIE_MASK = 1
    unfold Csr.getBit
    rw [hmie]
    exact htimer.2
  · rintro ⟨hrequest, hmsie⟩
    refine hsoft ⟨hmsip ▸ hrequest, ?_⟩
    have hbit : t.csr.getMsie = s.csr.getMsie := by
      unfold Csr.getMsie Csr.getBit
      rw [hmie]
    rw [← hbit, hmsie]

/-- So there is a next round, through the handler. -/
theorem Stalled.round (h : Stalled n s t)
    (hinst : Installed s s.csr.getMtvec) (hal : s.pc.toNat % 4 = 0)
    (htimer : s.TimerDue) (hsoft : ¬ s.SoftwareDue)
    (hcount : (ClintMemoryDevice.mcycle (s.mem .clint)).toNat + 2 * n + 1
      < 2 ^ 64) :
    ∃ u v, t.nextInstruction = .ok u ∧ u.nextInstruction = .ok v
      ∧ u.pc = Label.machineTimerInterrupt.address s.csr.getMtvec
      ∧ Stalled (n + 1) s v := by
  have htvec : t.csr.getMtvec = s.csr.getMtvec :=
    h.csr _ (by decide) (by decide) (by decide) (by decide)
  obtain ⟨hdue, hsoft'⟩ := h.due htimer hsoft hcount
  obtain ⟨u, v, hfirst, hsecond, hpc, hv⟩ := timer_round
    (by rw [htvec]; exact hinst.of_mem h.mem)
    (by rw [h.pc]; exact hal) hdue hsoft'
  rw [htvec] at hpc
  exact ⟨u, v, hfirst, hsecond, hpc, h.next hv⟩

/-- From the first timer interrupt on, the program makes no progress. The
handler leaves the comparator alone, so the interrupt is due again when
it has returned; every second cycle the machine is where it was and takes
the interrupt, in between it stands at the MRET. This ends when the
counter wraps around. -/
theorem timer_starves (L : Layout) (s : Mcu L) (n : Nat)
    (hinst : Installed s s.csr.getMtvec) (hal : s.pc.toNat % 4 = 0)
    (hmie : s.csr.getMie = 1) (htimer : s.TimerDue)
    (hsoft : ¬ s.SoftwareDue)
    (hcount : (ClintMemoryDevice.mcycle (s.mem .clint)).toNat + 2 * n + 1
      < 2 ^ 64) :
    ∃ t u, steps Mcu.nextInstruction (2 * n) s = .ok t ∧ Stalled n s t
      ∧ t.Due ∧ t.nextInstruction = .ok u
      ∧ u.pc = Label.machineTimerInterrupt.address s.csr.getMtvec := by
  have hrun : ∀ m ≤ n, ∃ t,
      steps Mcu.nextInstruction (2 * m) s = .ok t ∧ Stalled m s t := by
    intro m hm
    induction m with
    | zero =>
        exact ⟨s, rfl, rfl, rfl, fun _ _ => rfl, fun _ _ => rfl, hmie,
          fun _ _ _ _ _ => rfl, (BitVec.add_zero _).symm⟩
    | succ m ih =>
        obtain ⟨t, hrun, ht⟩ := ih (by omega)
        obtain ⟨u, v, hfirst, hsecond, -, hv⟩ :=
          ht.round hinst hal htimer hsoft (by omega)
        exact ⟨v, steps_succ_eq_ok.2 ⟨u, steps_succ_eq_ok.2
          ⟨t, hrun, hfirst⟩, hsecond⟩, hv⟩
  obtain ⟨t, hsteps, ht⟩ := hrun n le_rfl
  obtain ⟨u, v, hfirst, -, hpc, -⟩ :=
    ht.round hinst hal htimer hsoft hcount
  exact ⟨t, u, hsteps, ht, (ht.due htimer hsoft hcount).1, hfirst, hpc⟩

/-- With the comparator as it is after a reset. -/
theorem reset_timer_starves :
    ∃ t, steps Mcu.nextInstruction (2 * 500000) (loaded 0x13 8 0x80)
        = .ok t ∧ t.pc = 0x800000a4 ∧ t.Due := by
  obtain ⟨t, u, hsteps, ht, hdue, -⟩ := timer_starves .linker
    (loaded 0x13 8 0x80) 500000 (installed_loaded 0x13 8 0x80)
    (by decide) (by decide +kernel) (by decide +kernel) (by decide +kernel)
    (by decide +kernel)
  exact ⟨t, hsteps, ht.pc, hdue⟩

end Firmware

end T89Emu
