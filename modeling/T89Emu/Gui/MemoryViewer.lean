/-
The memory viewer of the GUI (Gui::addMemorySection and
Gui::renderMemoryViewer in Gui.cpp): a table of ROM, RAM and video memory
with 16 bytes in a row, and the buttons that scroll in it.

Which rows can be seen is up to the GUI library; these are all that it
can ask for. It also keeps the table from being scrolled beyond its ends.
-/
import T89Emu.Core.Mcu
import T89Emu.Lib.Text

namespace T89Emu

open Bytes Text

namespace Gui

-- ================================================================ the table

/-- The four columns of a row. -/
structure MemoryRow where
  region : String
  addr : String
  hex : String
  ascii : String
  deriving DecidableEq, Repr

/-- `%02X` -/
def hexByte (b : BitVec 8) : String := (hexPadded 2 b.toNat).toUpper

def asciiByte (b : BitVec 8) : Char :=
  if 0x20 ≤ b ∧ b ≤ 0x7e then Char.ofNat b.toNat else '.'

/-- The row of 16 bytes. -/
def memoryRow (memSectionName : String) (address : U32)
    (hexBytes : List (BitVec 8)) : MemoryRow where
  region := memSectionName
  addr := hexPadded 8 address.toNat
  hex := " ".intercalate (hexBytes.map hexByte)
  ascii := String.ofList (hexBytes.map asciiByte)

/-- `hexBytes`; behind the section there are bytes of ones. -/
def rowBytes {memSize : Nat} (memPtr : Buffer memSize) (addr : Nat) :
    List (BitVec 8) :=
  (List.range 16).map fun i =>
    if h : 16 * addr + i < memSize then memPtr ⟨16 * addr + i, h⟩ else 0xff

/-- The number of rows, `ceil(memSize / 16.0)`. -/
def rowsInMemSection (memSize : Nat) : Nat := (memSize + 15) / 16

def addMemorySection {memSize : Nat} (memStart : U32)
    (memPtr : Buffer memSize) (memSectionName : String) : List MemoryRow :=
  (List.range (rowsInMemSection memSize)).map fun addr =>
    memoryRow memSectionName (BitVec.ofNat 32 (16 * addr) + memStart)
      (rowBytes memPtr addr)

variable {L : Layout}

/-- The section of a device. -/
def memorySection (s : Mcu L) (k : DeviceClass) (memSectionName : String) :
    List MemoryRow :=
  addMemorySection (L.device k).baseAddress (s.mem k) memSectionName

/-- The table of `Gui::renderMemoryViewer`. -/
def renderMemoryViewer (s : Mcu L) : List MemoryRow :=
  memorySection s .rom "CODE" ++ memorySection s .ram "DATA"
    ++ memorySection s .video "VRAM"

-- ============================================================= the buttons

/-- The buttons, and the number in the text field. -/
structure Jump where
  hexBuf : U32
  goToAddr : Bool
  pc : Bool
  sp : Bool
  vram : Bool

def jumpAddr (L : Layout) (jump : Jump) : U32 :=
  let rom := L.device .rom
  let ram := L.device .ram
  let jumpAddr := if jump.goToAddr then jump.hexBuf else -1
  let jumpAddr := if jump.pc then 0 else jumpAddr
  let jumpAddr :=
    if jump.sp then rom.getEndAddress - rom.baseAddress else jumpAddr
  if jump.vram then
    rom.getEndAddress - rom.baseAddress + ram.getEndAddress - ram.baseAddress
  else jumpAddr

/-- The row at the top after `ImGui::SetScrollY`, which takes its number
times the height of a row; the shift is one of an `int`. The library clamps
the position, below to 0 and above to the end of the table, where
`scrollMax` is the row at the top. -/
def scrollRow (L : Layout) (scrollMax : Nat) (jump : Jump) : Option Nat :=
  if jumpAddr L jump ≠ -1 then
    some (min ((jumpAddr L jump).sshiftRight 4).toInt.toNat scrollMax)
  else none

end Gui

end T89Emu
