/-
ROM is read-only to the guest.

A guest reaches memory in two ways: a STORE through the bus, and the
cycle of the CLINT. The first is refused when it is routed to ROM and
lands in another device's bytes otherwise (`busWrite_rom_same`); the
second counts in the CLINT's own bytes. Traps write no memory. So every
cycle keeps the bytes of ROM, and a run keeps what was flashed
(`rom_read_only`).
-/
import T89Emu.Core.Proofs.Decode
import T89Emu.Core.Proofs.Interrupt

namespace T89Emu

open Bytes Cpp Run

variable {L : Layout}

namespace Mcu

/-- A write through the bus changes no byte of ROM, wherever it is
routed. -/
theorem busWrite_rom_same {s : Mcu L} {addr data code : U32} {size : Nat}
    {mem : Heap L.device} (h : s.busWrite addr data size = .ok (code, mem)) :
    mem .rom = s.mem .rom := by
  cases hsel : bus.select L.device addr with
  | none =>
      unfold busWrite at h
      rw [Bus.write_of_select_none hsel] at h
      cases h
      rfl
  | some k =>
      by_cases hk : k = .rom
      · subst hk
        rw [busWrite_rom hsel] at h
        cases h
        rfl
      · unfold busWrite at h
        rw [Bus.write_of_select hsel] at h
        obtain ⟨⟨status, m⟩, -, h⟩ := bind_eq_ok.1 h
        cases h
        exact Function.update_of_ne (Ne.symm hk) _ _

/-- One instruction. -/
theorem executeInstruction_rom_same {s t : Mcu L} {code : U32}
    (h : s.executeInstruction = .ok (code, t)) :
    t.mem .rom = s.mem .rom := by
  rcases executeInstruction_mem_cases h with hmem | ⟨w, -, -, hst⟩
  · rw [hmem]
  · exact busWrite_rom_same hst

/-- The CLINT's cycle and a possible interrupt entry. -/
theorem serviceInterrupts_rom_same (s : Mcu L) :
    s.serviceInterrupts.mem .rom = s.mem .rom := by
  have hclint : DeviceClass.rom ≠ .clint := by decide
  by_cases hdue : s.Due
  · rw [(interrupt_frame hdue).2.2.1]
    exact s.nextCycle_frame.2.2.2.1 .rom hclint
  · rw [serviceInterrupts_of_not_due hdue]
    exact s.nextCycle_frame.2.2.2.1 .rom hclint

/-- One cycle of the core. -/
theorem nextInstruction_rom_same {s t : Mcu L}
    (h : s.nextInstruction = .ok t) : t.mem .rom = s.mem .rom := by
  refine nextInstruction_keeps (P := fun u => u.mem .rom = s.mem .rom) h
    s.serviceInterrupts_rom_same ?_ fun u code hu => ?_
  · intro u v code _ hu hv
    exact (executeInstruction_rom_same hv).trans hu
  · -- a trap entry writes no memory
    exact hu

/-- Firmware cannot modify ROM: along every run its bytes are those that
were flashed, and a store that is routed to it traps as illegal and
changes nothing. -/
theorem rom_read_only (L : Layout) :
    (∀ (entryPc : U32) (firmware : (L.device .rom).Mem) (n : Nat)
        (s : Mcu L),
      steps nextInstruction n (boot L entryPc firmware) = .ok s →
      s.mem .rom = firmware)
    ∧ ∀ (s : Mcu L) (w : U32), s.Fetches w → opcodeOf w = .STORE →
      bus.select L.device (s.effectiveAddr w) = some .rom →
      s.executeInstruction = .ok (ILLEGAL_INSTRUCTION, s) := by
  constructor
  · intro entryPc firmware n s h
    have hboot : Function.update (new L entryPc).mem .rom firmware .rom
        = firmware := Function.update_self ..
    refine invariant (P := fun t => t.mem .rom = firmware) ?_ hboot h
    intro u v hu hv
    exact (nextInstruction_rom_same hv).trans hu
  · intro s w hw hop hsel
    exact illegal_of_other_or_rom hw (.inr ⟨hop, hsel⟩)

/-- A program that stores to its own first word: two cycles later the word
is still there, and the store was refused. -/
theorem store_to_own_code_refused :
    let words : List U32 := [0x800000b7, 0x0000a023]
    let firmware : (Layout.linker.device .rom).Mem := fun i =>
      byteOf (words.getD (i / 4) 0) (i % 4)
    let s : Mcu .linker := boot .linker 0x80000000 firmware
    ∃ t, steps nextInstruction 1 s = .ok t ∧ t.mem .rom = firmware
      ∧ t.executeInstruction = .ok (ILLEGAL_INSTRUCTION, t) := by
  intro words firmware s
  have hrun : (steps nextInstruction 1 s).map (fun t =>
      (t.busRead t.pc WORD, bus.select Layout.linker.device
        (t.effectiveAddr 0x0000a023)))
      = .ok (.ok (STATUS_OK, some 0x0000a023), some .rom) := by
    decide +kernel
  obtain ⟨t, ht, hobs⟩ := map_eq_ok.1 hrun
  obtain ⟨hfetch, hsel⟩ := Prod.mk.inj hobs
  have hrom := rom_read_only .linker
  exact ⟨t, ht, hrom.1 0x80000000 firmware 1 t ht,
    hrom.2 t 0x0000a023 hfetch (by decide) hsel⟩

end Mcu

end T89Emu
