/-
The debugger around the emulator (McuDebug.cpp): running up to a
breakpoint, stepping by an instruction or by a source line, and the line
that is shown.

The loop of `stepLine` takes fuel that is a parameter: a program need
never reach another line. A line table is asked for the line at a pc
only inside a compile unit; outside of all of them the question is
undefined (`DwarfParser.getCompileUnitAtPc`).
-/
import T89Emu.Core.Mcu
import T89Emu.Dwarf.DwarfParser

namespace T89Emu

open Cpp Dwarf

/-- The debugger of a machine with layout `L`. -/
structure McuDebug (L : Layout) where
  dwarfParser : DwarfParser
  mcu : Mcu L
  breakpoints : List U32
  latestSourceLine : U32

namespace McuDebug

variable {L : Layout}

-- =========================================================== construction

/-- The end of the constructor: the line of the first instruction. -/
def attach (dwarfParser : DwarfParser) (mcu : Mcu L) :
    Proc (McuDebug L) := do
  let latestSourceLine ← dwarfParser.getLineNumberAtPc mcu.pc
  pure { dwarfParser, mcu, breakpoints := [], latestSourceLine }

/-- `McuDebug(elfPath)` of the file with these bytes. -/
def new (files : FileSystem) (fuel : Nat) (file : List U8) :
    Proc ((L : Layout) × McuDebug L) := do
  match ← ElfParser.initStructures file with
  | none => throw .exit
  | some elfParser =>
      let dwarfParser ← DwarfParser.new files fuel file
      let L : Layout := ⟨← elfParser.getRomStart, ← elfParser.getRamStart⟩
      let entryPc ← elfParser.getEntryPc
      let firmware ← elfParser.flashRom (L.device .rom).zeroed
      let d ← attach dwarfParser (.boot L entryPc firmware)
      pure ⟨L, d⟩

-- ================================================================ running

variable (d : McuDebug L)

def isBreakpoint (address : U32) : Bool := address ∈ d.breakpoints

/-- The loop of `executeInstructions`. -/
def executeLoop : Nat → McuDebug L → Eval (McuDebug L)
  | 0, d => .ok d
  | cycles + 1, d =>
      if d.isBreakpoint d.mcu.pc then .ok d
      else do
        let mcu ← d.mcu.nextInstruction
        executeLoop cycles { d with mcu }

def executeInstructions (cycles : U32) : Eval (McuDebug L) :=
  executeLoop cycles.toNat d

def stepInstruction : Proc (McuDebug L) := do
  let mcu ← d.mcu.nextInstruction
  let curLine ← d.dwarfParser.getLineNumberAtPc mcu.pc
  let latestSourceLine :=
    if curLine ≠ 0 then curLine else d.latestSourceLine
  pure { d with mcu, latestSourceLine }

/-- The loop of `stepLine`, the machine and `curLine` behind it. -/
def stepLineLoop (startPc : U32) : Nat → Mcu L → Proc (Mcu L × U32)
  | 0, _ => throw .running
  | fuel + 1, mcu => do
      let mcu ← mcu.nextInstruction
      let curLine ← d.dwarfParser.getLineNumberAtPc mcu.pc
      if (curLine = 0 ∨ curLine = d.latestSourceLine) ∧ startPc ≠ mcu.pc
      then stepLineLoop startPc fuel mcu
      else pure (mcu, curLine)

def stepLine (fuel : Nat) : Proc (McuDebug L) := do
  let (mcu, curLine) ← d.stepLineLoop d.mcu.pc fuel d.mcu
  pure { d with mcu, latestSourceLine := curLine }

-- ============================================================ breakpoints

def addBreakpoint (address : U32) : McuDebug L :=
  if address ∈ d.breakpoints then d
  else { d with breakpoints := d.breakpoints ++ [address] }

/-- The loop of `removeBreakpoint`, from an index on. -/
def removeLoop (address : U32) (breakpoints : List U32) (i : Nat) :
    List U32 :=
  if h : i < breakpoints.length then
    if address = breakpoints[i] then breakpoints.eraseIdx i
    else removeLoop address breakpoints (i + 1)
  else breakpoints
termination_by breakpoints.length - i

def removeBreakpoint (address : U32) : McuDebug L :=
  { d with breakpoints := d.breakpoints.erase address }

end McuDebug

end T89Emu
