/-
The terminal of the firmware (terminal.c) and its main routine
(kernel.c).

The cursor is an `int` and counts characters; nothing looks at the size
of the text buffer. The strings are those of the C code, with the length
that the caller gives beside them. The variable `terminal` is apart from
the memory of the machine.
-/
import T89Emu.Firmware.Guest

namespace T89Emu

open Bytes Cpp

namespace Firmware

def WIDTH : Nat := 512
def HEIGHT : Nat := 288
def PIXEL_MAX : Nat := WIDTH * HEIGHT
def BLUE_SCREEN : U32 := 0xffbb4700

def VRAM_START : U32 := 0x20000000
def VIDEO_MEMORY : U32 := VRAM_START
def TEXT_BUFFER : U32 := VRAM_START + 16
def GRAPHICS_BUFF : U32 := VRAM_START + 1360

/-- `terminal_state` -/
structure TerminalState where
  cursorIndex : Int

/-- The variable and the machine. -/
abbrev Terminal (L : Layout) : Type := TerminalState × Mcu L

variable {L : Layout}

/-- The cursor, moved on. -/
def TerminalState.advance (terminal : TerminalState) (n : Int) :
    Guest TerminalState :=
  if terminal.cursorIndex + n < 2 ^ 31 then
    .ok ⟨terminal.cursorIndex + n⟩
  else .error (.halt .signedOverflow)

/-- `init_terminal` -/
def initTerminal (s : Mcu L) : Terminal L := (⟨0⟩, s)

/-- `buffer[terminal.cursor_index++] = str[idx];` -/
def putChar (str : List (BitVec 8)) (t : Terminal L) (idx : Nat) :
    Guest (Terminal L) :=
  match str[idx]? with
  | none => .error (.halt (.undefined .outOfBounds))
  | some c => do
      let terminal ← t.1.advance 1
      let s ← store t.2 (TEXT_BUFFER + BitVec.ofInt 32 t.1.cursorIndex)
        (c.setWidth 32) BYTE
      .ok (terminal, s)

/-- `print_str` -/
def printStr (str : List (BitVec 8)) (len : Int) (t : Terminal L) :
    Guest (Terminal L) :=
  (List.range len.toNat).foldlM (putChar str) t

/-- `print_str_line` -/
def printStrLine (str : List (BitVec 8)) (len : Int) (t : Terminal L) :
    Guest (Terminal L) := do
  let (terminal, s) ← printStr str len t
  let terminal ← terminal.advance 64
  .ok (terminal, s)

/-- `enable_text_mode` -/
def enableTextMode (t : Terminal L) : Guest (Terminal L) := do
  let s ← store t.2 VIDEO_MEMORY 1 BYTE
  .ok (t.1, s)

/-- `buffer[idx] = BLUE_SCREEN;` -/
def paint (s : Mcu L) (idx : Nat) : Guest (Mcu L) :=
  store s (GRAPHICS_BUFF + 4 * BitVec.ofNat 32 idx) BLUE_SCREEN WORD

/-- `init_blue_screen` -/
def initBlueScreen (s : Mcu L) : Guest (Mcu L) :=
  (List.range PIXEL_MAX).foldlM paint s

/-- A string literal. -/
def literal (str : String) : List (BitVec 8) :=
  str.toList.map (fun c => BitVec.ofNat 8 c.toNat) ++ [0]

/-- `kernel_main` -/
def kernelMain (s : Mcu L) : Guest (Terminal L) := do
  let t := initTerminal s
  let t ← enableTextMode t
  let t ← printStrLine (literal "Terminal Init") 13 t
  printStr (literal "Hello World!") 12 t

end Firmware

end T89Emu
