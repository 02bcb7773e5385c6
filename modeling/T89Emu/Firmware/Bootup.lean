/-
The boot code of the firmware (load_ram in bootup.c).

The addresses of the linker script and of the variable `mtimecmp_l` are
parameters, and so is what the compiled code does of its own between two
accesses that the C code names: it runs cycles, uses registers, and
keeps its variables in its frame on the stack. `load_ram` is modelled up
to where it enables the interrupts.
-/
import T89Emu.Firmware.Guest

namespace T89Emu

open Bytes Cpp

namespace Firmware

variable {L : Layout}

/-- The symbols of the linker script, and where `mtimecmp_l` lies. -/
structure Symbols where
  programEnd : U32
  sdata : U32
  edata : U32
  sbss : U32
  ebss : U32
  mtimecmpL : U32

/-- `while (ram_ptr < &_edata) *ram_ptr++ = *rom_data++;` -/
def copyLoop (meanwhile : Mcu L → Mcu L) (edata : U32) :
    Nat → Mcu L → U32 → U32 → Guest (Mcu L)
  | 0, _, _, _ => .error (.halt .running)
  | fuel + 1, s, ramPtr, romData =>
      if ramPtr < edata then do
        let s := meanwhile s
        let word ← loadWord s romData
        let s ← store (meanwhile s) ramPtr word WORD
        copyLoop meanwhile edata fuel s (ramPtr + 4) (romData + 4)
      else .ok s

/-- `while (rom_data < &_ebss) *rom_data++ = 0;` -/
def clearLoop (meanwhile : Mcu L → Mcu L) (ebss : U32) :
    Nat → Mcu L → U32 → Guest (Mcu L)
  | 0, _, _ => .error (.halt .running)
  | fuel + 1, s, romData =>
      if romData < ebss then do
        let s ← store (meanwhile s) romData 0 WORD
        clearLoop meanwhile ebss fuel s (romData + 4)
      else .ok s

/-- `load_ram`, up to `csr_set_field_misa` -/
def loadRam (meanwhile : Mcu L → Mcu L) (sym : Symbols) (fuel : Nat)
    (s : Mcu L) : Guest (Mcu L) := do
  let s ← copyLoop meanwhile sym.edata fuel s sym.sdata sym.programEnd
  let s ← clearLoop meanwhile sym.ebss fuel s sym.sbss
  let s := meanwhile s
  let mtimecmpL ← loadWord s sym.mtimecmpL
  store (meanwhile s) mtimecmpL 0x20000000 WORD

end Firmware

end T89Emu
