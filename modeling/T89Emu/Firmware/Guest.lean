/-
Memory as the C code of the firmware sees it.

An access goes over the bus of the emulator. One that is refused takes
the guest into a trap handler, from which the C code does not go on; one
that leaves the array of its device is undefined in the emulator itself.
-/
import T89Emu.Core.Mcu
import T89Emu.Lib.Process

namespace T89Emu

open Bytes Cpp

namespace Firmware

/-- The ways the code can fail to come to its end. -/
inductive Stop
  | trap (status : U32)
  | halt (reason : Halt)
  deriving DecidableEq, Repr

abbrev Guest := Except Stop

variable {L : Layout}

/-- A word, read through a pointer. -/
def loadWord (s : Mcu L) (addr : U32) : Guest U32 :=
  match s.busRead addr WORD with
  | .ok (status, some value) =>
      if status = STATUS_OK then .ok value else .error (.trap status)
  | .ok (status, none) => .error (.trap status)
  | .error e => .error (.halt (.undefined e))

/-- An assignment through a pointer. -/
def store (s : Mcu L) (addr value : U32) (size : Nat) : Guest (Mcu L) :=
  match s.busWrite addr value size with
  | .ok (status, mem) =>
      if status = STATUS_OK then .ok { s with mem } else .error (.trap status)
  | .error e => .error (.halt (.undefined e))

end Firmware

end T89Emu
