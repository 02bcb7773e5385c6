/-
The application (Gui::runApplication in Gui.cpp): frame after frame, the
emulation of the frame and what the panels do with the clicks and keys
of the user.

The GUI library stands outside of the model. What it reports in a frame
is the `Input` of that frame: whether the window is asked to show a
button as pressed, and which keys are down. What a panel draws changes
neither the machine nor the debugger, so of each panel only its effects
are here: the I/O panel stores the keyboard register through the CLINT's
buffer, the disassembly sets and removes breakpoints, and the control
panel leaves what the next frame will do.

`IsLegacyNativeDupe` holds of keys below 512 only, and the keys of
`buttons` start there.
-/
import T89Emu.Debug.McuDebug

namespace T89Emu

open Bytes Cpp Dwarf

namespace Gui

def INSTRUCTIONS_PER_FRAME : U32 := 1000000

/-- The keys of the I/O panel. -/
inductive Key
  | Tab | W | A | S | D
  deriving DecidableEq, Repr

def buttons : List Key := [.Tab, .W, .A, .S, .D]

/-- What the GUI library reports in a frame. -/
structure Input where
  isKeyDown : Key → Bool
  breakpointAddress : U32
  set : Bool
  remove : Bool
  stepi : Bool
  step : Bool
  run : Bool -- the checkbox was clicked

-- ============================================================ the I/O panel

/-- Where the keyboard register is in the CLINT's buffer. -/
def KEYBOARD_OFFSET : Nat := 16

/-- The loop over the indices: `if (key == buttons.at(i))
*keyboardCsr = (1 << i)`. -/
def setKey (key : Key) (keyboardCsr : U32) : U32 :=
  buttons.zipIdx.foldl
    (fun csr b => if key = b.1 then 1#32 <<< b.2 else csr) keyboardCsr

/-- The loop over the keys, which breaks at the first one that is
down. -/
def keyLoop (isKeyDown : Key → Bool) : List Key → U32 → U32
  | [], keyboardCsr => keyboardCsr
  | key :: keys, keyboardCsr =>
      if isKeyDown key then setKey key keyboardCsr
      else keyLoop isKeyDown keys 0

variable {L : Layout}

/-- `*keyboardCsr`, as the panel reaches it. -/
def keyboardCsr (s : Mcu L) : U32 :=
  (s.mem .clint).peek KEYBOARD_OFFSET 4
    (show KEYBOARD_OFFSET + 4 ≤ CLINT_SIZE.toNat by decide)

def storeKeyboard (s : Mcu L) (csr : U32) : Mcu L :=
  { s with
    mem := Function.update s.mem .clint
      ((s.mem .clint).poke KEYBOARD_OFFSET 4 csr) }

/-- `Gui::renderIoPanel` -/
def renderIoPanel (input : Input) (s : Mcu L) : Mcu L :=
  storeKeyboard s (keyLoop input.isKeyDown buttons (keyboardCsr s))

end Gui

-- ============================================================ the frames

/-- The members of `Gui` that decide what a frame does. -/
structure Gui (L : Layout) where
  debug : McuDebug L
  doStepI : Bool
  doStep : Bool
  isRunEnabled : Bool

namespace Gui

variable {L : Layout}

/-- `Gui::Gui` -/
def new (debug : McuDebug L) : Gui L := ⟨debug, false, false, false⟩

/-- What is emulated in a frame; `fuel` is for `stepLine`. -/
def emulate (g : Gui L) (fuel : Nat) : Proc (McuDebug L) :=
  if g.isRunEnabled then
    g.debug.executeInstructions INSTRUCTIONS_PER_FRAME
  else if g.doStepI then g.debug.stepInstruction
  else if g.doStep then g.debug.stepLine fuel
  else .ok g.debug

/-- The breakpoints of `Gui::renderDisassembledCodeSection`. -/
def renderBreakpoints (input : Input) (d : McuDebug L) : McuDebug L :=
  let d := if input.set then d.addBreakpoint input.breakpointAddress else d
  if input.remove then d.removeBreakpoint input.breakpointAddress else d

/-- `Gui::renderControlPanel` -/
def renderControlPanel (input : Input) (g : Gui L) : Gui L :=
  { g with
    doStepI := input.stepi
    doStep := input.step
    isRunEnabled := g.isRunEnabled ^^ input.run }

/-- One round of the loop of `Gui::runApplication`. -/
def frame (g : Gui L) (fuel : Nat) (input : Input) : Proc (Gui L) := do
  let debug ← g.emulate fuel
  let debug := { debug with mcu := renderIoPanel input debug.mcu }
  let debug := renderBreakpoints input debug
  pure (renderControlPanel input { g with debug })

/-- `Gui::runApplication`, until the window is closed. -/
def runApplication (fuel : Nat) : Gui L → List Input → Proc (Gui L)
  | g, [] => pure g
  | g, input :: inputs => do
      let g ← g.frame fuel input
      runApplication fuel g inputs

end Gui

end T89Emu
