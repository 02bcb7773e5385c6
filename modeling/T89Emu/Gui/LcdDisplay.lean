/-
The LCD display of the GUI (Gui::renderLcdDisplay in Gui.cpp).

The renderer looks at the byte array of the VRAM device: the mode byte
in front, the text buffer behind the 16 bytes of the controller, and the
pixel buffer behind the text buffer. The text and screen dimensions are
those the Mcu constructor hands to the device.

In graphics mode the array is passed to `glTexImage2D` as an image of
`textureW * textureH` RGBA pixels of one byte a channel. What the call
reads for each of them is kept (`texel`), so that one can ask of every
pixel by itself whether it was read from inside the array.
-/
import T89Emu.Core.Mcu

namespace T89Emu

open Bytes Cpp

namespace Gui

def VGA_TEXT_MODE : U32 := 1
def GRAPHICS_MODE : U32 := 2

/-- The byte array of a VRAM device. -/
abbrev Vram := Buffer VIDEO_SIZE.toNat

/-- `vramProbe->getBuffer()`. -/
def vramProbe {L : Layout} (heap : Heap L.device) : Vram := heap .video

/-- What the window shows of it. -/
inductive Display
  | text (lines : List (List (Eval (BitVec 8))))
  | graphics (textureW textureH : Nat)
      (texel : Nat → Nat → Eval (BitVec 8))
  | blank

variable (vram : Vram)

/-- The byte that `getBuffer() + i` points at. -/
def byteAt (i : Nat) : Eval (BitVec 8) :=
  if h : i < VIDEO_SIZE.toNat then .ok (vram ⟨i, h⟩)
  else .error .outOfBounds

def videoMode : U32 := (vram ⟨0, by decide⟩).setWidth 32

/-- Cell `j` of line `i` in text mode; null bytes are shown as
spaces. -/
def lineStr (i j : Nat) : Eval (BitVec 8) := do
  let c ← byteAt vram (16 + TEXT_WIDTH.toNat * i + j)
  .ok (if c = 0 then 0x20 else c)

/-- The offset of the pixel buffer. -/
def vramBuffer : Nat := 16 + TEXT_WIDTH.toNat * TEXT_HEIGHT.toNat

/-- Channel `channel` of a pixel, as `glTexImage2D` reads it. -/
def texel (pixel channel : Nat) : Eval (BitVec 8) :=
  byteAt vram (vramBuffer + (4 * pixel + channel))

/-- `Gui::renderLcdDisplay`. -/
def renderLcdDisplay : Display :=
  if videoMode vram = VGA_TEXT_MODE then
    .text ((List.range TEXT_HEIGHT.toNat).map fun i =>
      (List.range TEXT_WIDTH.toNat).map (lineStr vram i))
  else if videoMode vram = GRAPHICS_MODE then
    .graphics SCREEN_WIDTH.toNat SCREEN_HEIGHT.toNat (texel vram)
  else .blank

end Gui

end T89Emu
