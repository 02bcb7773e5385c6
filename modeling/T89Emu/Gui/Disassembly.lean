/-
The disassembly of the GUI (Gui::renderDisassembledCodeSection in
Gui.cpp): the row that is drawn for each entry of the listing. Its
breakpoints are set and removed before the rows are drawn
(T89Emu/Gui/Application.lean).
-/
import T89Emu.Debug.McuDebug
import T89Emu.Elf.DisassembledCode

namespace T89Emu

open Text ElfParser

namespace Gui

/-- The background of a row. -/
inductive RowColor
  | plain | breakpoint | pc
  deriving DecidableEq, Repr

/-- What is drawn of an entry. -/
inductive CodeRow
  | symbol (line : List U8)
  | instruction (color : RowColor) (address : String) (line : Option String)
  deriving DecidableEq, Repr

variable {L : Layout}

/-- One round of the loop over the listing. -/
def renderEntry (d : McuDebug L) : CodeEntry → CodeRow
  | .symbol _ line => .symbol line
  | .instruction address _ line =>
      let color :=
        if d.isBreakpoint address then RowColor.breakpoint
        else if address = d.mcu.pc then .pc
        else .plain
      .instruction color (hexPadded 8 address.toNat ++ ":") line

/-- The rows of `Gui::renderDisassembledCodeSection`. -/
def renderDisassembly (d : McuDebug L) (disassembly : List CodeEntry) :
    List CodeRow :=
  disassembly.map (renderEntry d)

end Gui

end T89Emu
