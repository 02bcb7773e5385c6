/-
The start of the firmware (crt0.s).

`la`, `csrw` and `call` are the assembler's names for one or two
instructions each. The linker relaxes the calls unless it is told not to:
the source turns that off for the global pointer only, and the Makefile
not at all. Neither the stack nor the table is near enough to the global
pointer for their `la` to become shorter. The addresses are those that
the linker gives to the symbols.
-/
import T89Emu.Lib.Rv32
import T89Emu.Lib.Rv32.Assembly

namespace T89Emu

namespace Firmware

open Rv32

/-- The symbols that crt0.s names. -/
structure StartSymbols where
  stackTop : BitVec 32
  globalPointer : BitVec 32
  vectorTable : BitVec 32
  loadRam : BitVec 32
  kernelMain : BitVec 32

/-- `csrw mtvec, a0` -/
def csrwMtvec : BitVec 32 := iWord 1 10 0 SYSTEM 0x305

/-- `_start`, at an address, its calls relaxed or not. -/
def startCode (sym : StartSymbols) (relax : Bool) (start : BitVec 32) :
    List (BitVec 32) :=
  let loadRam := start + 32
  let kernelMain := afterCall relax loadRam sym.loadRam
  (la 2 start sym.stackTop
      ++ [Instruction.immediate .addi 2 2 (-4)]
      ++ la 3 (start + 12) sym.globalPointer
      ++ la 10 (start + 20) sym.vectorTable).map Instruction.encode
    ++ [csrwMtvec]
    ++ (call relax loadRam sym.loadRam
      ++ call relax kernelMain sym.kernelMain).map Instruction.encode
    ++ [(Source.jump 1 0).encode] -- `_spin`

end Firmware

end T89Emu
