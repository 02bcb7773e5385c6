/-
The vector table of the firmware and its handlers (interrupt.s).

The blocks are those of the file, under its labels and in its order. `j`
and `jal` are the assembler's names for a JAL that links in `x0` and in
`x1`. The core has no compressed instructions, so each line is one word.
-/
import T89Emu.Lib.Rv32.Assembly

namespace T89Emu

namespace Firmware

open Rv32

/-- The labels of interrupt.s. -/
inductive Label
  | vectorTable
  | reserved
  | machineSoftwareInterrupt
  | machineTimerInterrupt
  | machineExternalInterrupt
  | instructionAddressMisaligned
  | instructionAccessFault
  | illegalInstruction
  | loadAddressMisaligned
  | loadAccessFault
  | storeAddressMisaligned
  | storeAccessFault
  | environmentCallMMode
  deriving DecidableEq, Repr

def j (target : Label) : Line Label := .jal 0 target

def jal (target : Label) : Line Label := .jal 1 target

def mret : Line Label := .word MRET

/-- The slots of `_vector_table`, by the number of the interrupt. -/
def interrupts : List Label :=
  [.reserved, .reserved, .reserved, .machineSoftwareInterrupt,
    .reserved, .reserved, .reserved, .machineTimerInterrupt,
    .reserved, .reserved, .reserved, .machineExternalInterrupt,
    .reserved, .reserved, .reserved, .reserved]

/-- Those behind them, by the code of the exception. -/
def exceptions : List Label :=
  [.instructionAddressMisaligned, .instructionAccessFault,
    .illegalInstruction, .reserved, .loadAddressMisaligned,
    .loadAccessFault, .storeAddressMisaligned, .storeAccessFault,
    .reserved, .reserved, .reserved, .environmentCallMMode]

/-- interrupt.s -/
def interruptSource : Source Label :=
  [(.vectorTable, (interrupts ++ exceptions).map j),
    (.reserved, [jal .reserved]),
    (.machineSoftwareInterrupt, [jal .machineSoftwareInterrupt]),
    (.machineTimerInterrupt, [mret]),
    (.machineExternalInterrupt, [mret]),
    (.instructionAddressMisaligned, [jal .instructionAddressMisaligned]),
    (.instructionAccessFault, [jal .instructionAccessFault]),
    (.illegalInstruction, [jal .illegalInstruction]),
    (.loadAddressMisaligned, [jal .loadAddressMisaligned]),
    (.loadAccessFault, [jal .loadAccessFault]),
    (.storeAddressMisaligned, [jal .storeAddressMisaligned]),
    (.storeAccessFault, [jal .storeAccessFault]),
    (.environmentCallMMode, [jal .environmentCallMMode, mret])]

/-- The address of a label, with `_vector_table` at `base`. -/
def Label.address (base : BitVec 32) (l : Label) : BitVec 32 :=
  base + BitVec.ofNat 32 (4 * interruptSource.place l)

end Firmware

end T89Emu
