/-
The source view of the GUI (Gui::renderDebugSource in Gui.cpp): one tab
for each source file, with a row for each of its lines.

Which tab is open is up to the GUI library, so each tab has its rows
here; the code asks the library to select one. Scrolling and the tables
of variables next to the tabs are left out.
-/
import T89Emu.Gui.Application

namespace T89Emu

open Cpp Dwarf

namespace Gui

/-- What is drawn of a line. -/
structure SourceRow where
  number : Nat
  line : List U8
  highlighted : Bool
  deriving DecidableEq, Repr

/-- A tab; `setSelected` is `ImGuiTabItemFlags_SetSelected`. -/
structure SourceTab where
  name : List U8
  setSelected : Bool
  rows : List SourceRow
  deriving DecidableEq, Repr

variable {L : Layout}

def doScroll (g : Gui L) : Bool := g.doStep || g.doStepI

/-- The loop over the lines. -/
def renderLines (sourceLineAtPc : U32) (lines : List (List U8)) :
    List SourceRow :=
  lines.mapIdx fun row line =>
    ⟨row + 1, line, row + 1 = sourceLineAtPc.toNat⟩

/-- One round of the loop over the sources. -/
def renderSource (g : Gui L) (sourceNameAtPc : List U8)
    (source : SourceInfo) : SourceTab where
  name := source.getName
  setSelected := g.doScroll && source.getName = sourceNameAtPc
  rows := renderLines g.debug.latestSourceLine source.lines

/-- The tabs of `Gui::renderDebugSource`; `sourceInfo` is what the parser
keeps of its sources. -/
def renderDebugSource (g : Gui L) (sourceInfo : List SourceInfo) :
    Proc (List SourceTab) := do
  let sourceNameAtPc ←
    g.debug.dwarfParser.getSourceNameAtPc g.debug.mcu.pc
  pure ((g.debug.dwarfParser.getSourceInfo sourceInfo).map
    (g.renderSource sourceNameAtPc))

end Gui

end T89Emu
