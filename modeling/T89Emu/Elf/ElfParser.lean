/-
ELF files (ElfParser.cpp): the checks of `initStructures`, the search
for the segments of ROM and RAM, and what is done with them.

A pointer into the file's bytes is kept as its offset. The structures
that the source lays over the bytes are read field by field, each at its
offset in the structure, so that a field is out of bounds exactly when
one of its own bytes is.
-/
import T89Emu.Core.Mcu
import T89Emu.Dwarf.DataStream

namespace T89Emu

open Cpp

namespace Elf

def PT_LOAD : U32 := 1

def PF_X : U32 := 1
def PF_W : U32 := 2
def PF_R : U32 := 4

/-- The members of `ElfHeader` that are read, at their offsets. -/
def PHOFF : Nat := 28
def SHOFF : Nat := 32
def ENTRY : Nat := 24
def PHENTSIZE : Nat := 42
def PHNUM : Nat := 44
def SHENTSIZE : Nat := 46
def SHNUM : Nat := 48
def SHSTRNDX : Nat := 50

/-- `sizeof(ElfHeader)`. -/
def HEADER_SIZE : Nat := 52

/-- `sizeof(ElfProgramHeader)`. -/
def PROGRAM_HEADER_SIZE : Nat := 32

-- ============================================================= the bytes

variable (elfData : List U8)

def byteAt (p : Nat) : Eval U8 := deref elfData[p]?

/-- `*(uint16_t *)(elfData + p)` -/
def halfAt (p : Nat) : Eval U16 := do
  let b0 ← byteAt elfData p
  let b1 ← byteAt elfData (p + 1)
  pure (b1 ++ b0)

/-- `*(uint32_t *)(elfData + p)` -/
def wordAt (p : Nat) : Eval U32 := do
  let b0 ← byteAt elfData p
  let b1 ← byteAt elfData (p + 1)
  let b2 ← byteAt elfData (p + 2)
  let b3 ← byteAt elfData (p + 3)
  pure (b3 ++ b2 ++ b1 ++ b0)

/-- The bytes of the file that are kept: `elfSize` is an
`unsigned int`. -/
def contents (file : List U8) : List U8 := file.take (file.length % 2 ^ 32)

-- ============================================================ the header

/-- A comparison of a member of the header with a constant. -/
inductive Check
  | byte (offset : Nat) (value : U8)
  | half (offset : Nat) (value : U16)
  | word (offset : Nat) (value : U32)

def Check.passes : Check → Eval Bool
  | byte offset value => do pure ((← byteAt elfData offset) = value)
  | half offset value => do pure ((← halfAt elfData offset) = value)
  | word offset value => do pure ((← wordAt elfData offset) = value)

/-- A chain of comparisons joined by `&&`. -/
def allPass : List Check → Eval Bool
  | [] => .ok true
  | check :: checks => do
      if ← check.passes elfData then allPass checks else .ok false

/-- What is verified of the header: magic number, class, byte order and
version, type, machine and version. -/
def format : List Check :=
  [.byte 0 0x7f, .byte 1 0x45, .byte 2 0x4c, .byte 3 0x46, .byte 4 1,
    .byte 5 1, .byte 6 1, .half 16 2, .half 18 0xf3, .word 20 1]

-- ================================================== the program headers

/-- `getProgramHeader(nentry)` for an entry below `phnum`: the product of
two 16-bit numbers is one of `int`. -/
def getProgramHeader (nentry : Nat) : Proc Nat := do
  let phoff ← wordAt elfData PHOFF
  let phentsize ← halfAt elfData PHENTSIZE
  if 2 ^ 31 ≤ nentry * phentsize.toNat then throw .signedOverflow
  else pure (phoff.toNat + nentry * phentsize.toNat)

/-- `pHdr->type`, `pHdr->offset`, … -/
def phType (p : Nat) : Eval U32 := wordAt elfData p
def phOffset (p : Nat) : Eval U32 := wordAt elfData (p + 4)
def phPaddr (p : Nat) : Eval U32 := wordAt elfData (p + 12)
def phFilesz (p : Nat) : Eval U32 := wordAt elfData (p + 16)
def phMemsz (p : Nat) : Eval U32 := wordAt elfData (p + 20)
def phFlags (p : Nat) : Eval U32 := wordAt elfData (p + 24)

/-- What a program header is taken for. -/
inductive Segment
  | ram | rom | other
  deriving DecidableEq, Repr

/-- Readable and writable is RAM, readable and executable is ROM. -/
def segmentOf (flags : U32) : Segment :=
  if flags &&& PF_R ≠ 0 ∧ flags &&& PF_W ≠ 0 then .ram
  else if flags &&& PF_R ≠ 0 ∧ flags &&& PF_X ≠ 0 then .rom
  else .other

/-- The tests of one round of the scan. -/
def classify (p : Nat) : Eval Segment := do
  let type ← phType elfData p
  if type ≠ PT_LOAD then pure .other
  else
    let flags ← phFlags elfData p
    pure (segmentOf flags)

end Elf

open Elf

/-- What the parser keeps of an accepted file. -/
structure ElfParser where
  elfData : List U8
  ramHeader : Option Nat
  romHeader : Option Nat
  deriving DecidableEq, Repr

namespace ElfParser

/-- One round of the scan for the segments of ROM and RAM. -/
def scanEntry (s : ElfParser) (idx : Nat) : Proc ElfParser := do
  let pHdr ← getProgramHeader s.elfData idx
  match ← classify s.elfData pHdr with
  | .ram =>
      match s.ramHeader with
      | some _ => throw .exit
      | none => pure { s with ramHeader := some pHdr }
  | .rom =>
      match s.romHeader with
      | some _ => pure s
      | none => pure { s with romHeader := some pHdr }
  | .other => pure s

/-- The scan over the entries of a list. -/
def scan (s : ElfParser) : List Nat → Proc ElfParser
  | [] => pure s
  | idx :: idxs => do
      let s ← s.scanEntry idx
      scan s idxs

/-- `initStructures` of a file that can be opened and read; `none` when
it returns false. -/
def initStructures (file : List U8) : Proc (Option ElfParser) := do
  let elfData := contents file
  if elfData = [] then pure none
  else if ← allPass elfData format then
    let phnum ← halfAt elfData PHNUM
    let s ← scan ⟨elfData, none, none⟩ (List.range phnum.toNat)
    pure (some s)
  else pure none

-- ========================================================= what is loaded

variable (s : ElfParser)

/-- A use of a header: a null pointer when there is none. -/
def dereference (header : Option Nat) : Proc Nat :=
  match header with
  | some pHdr => pure pHdr
  | none => throw .nullDereference

def getEntryPc : Proc U32 := wordAt s.elfData ENTRY

def getRamStart : Proc U32 := do
  let pHdr ← dereference s.ramHeader
  phPaddr s.elfData pHdr

def getRomStart : Proc U32 := do
  let pHdr ← dereference s.romHeader
  phPaddr s.elfData pHdr

/-- The inner loop of `flashRom` over `count` bytes of a segment from byte
`i` on: `*(buf++) = *(elfData + offset + i)`, with `buf` at `pos`. -/
def flashLoop {n : Nat} (offset : Nat) :
    Nat → Nat → Nat → Bytes.Buffer n → Proc (Bytes.Buffer n × Nat)
  | 0, _, pos, buf => pure (buf, pos)
  | count + 1, i, pos, buf => do
      let b ← byteAt s.elfData (offset + i)
      if h : pos < n then
        flashLoop offset count (i + 1) (pos + 1)
          (Function.update buf ⟨pos, h⟩ b)
      else throw (.undefined .outOfBounds)

/-- Its outer loop, over the headers of `loadableSections`. -/
def flashSections {n : Nat} :
    List (Option Nat) → Nat → Bytes.Buffer n → Proc (Bytes.Buffer n)
  | [], _, buf => pure buf
  | header :: headers, pos, buf => do
      let pHdr ← dereference header
      let memsz ← phMemsz s.elfData pHdr
      let filesz ← phFilesz s.elfData pHdr
      let sectionSize := if memsz < filesz then memsz else filesz
      let offset ← phOffset s.elfData pHdr
      let (buf, pos) ← s.flashLoop offset.toNat sectionSize.toNat 0 pos buf
      flashSections headers pos buf

/-- `flashRom`: the segment of ROM, and behind it that of RAM. -/
def flashRom {n : Nat} (buf : Bytes.Buffer n) : Proc (Bytes.Buffer n) :=
  s.flashSections [s.romHeader, s.ramHeader] 0 buf

-- ========================================================= section headers

/-- `!strncmp(sectionName, name, strlen(name))`, the section's name at
`p`. -/
def nameStarts (elfData : List U8) : Nat → List U8 → Eval Bool
  | _, [] => .ok true
  | p, c :: name => do
      let b ← byteAt elfData p
      if b = c then nameStarts elfData (p + 1) name else pure false

/-- A header of the section header table; the product is one of
`int`. -/
def sectionHeader (idx : Nat) : Proc Nat := do
  let shoff ← wordAt s.elfData SHOFF
  let shentsize ← halfAt s.elfData SHENTSIZE
  if 2 ^ 31 ≤ idx * shentsize.toNat then throw .signedOverflow
  else pure (shoff.toNat + idx * shentsize.toNat)

/-- The loop of `getSectionHeader`. -/
def findSection (name : List U8) : List Nat → Proc (Option Nat)
  | [] => pure none
  | idx :: idxs => do
      let sHdr ← s.sectionHeader idx
      let shstrndx ← halfAt s.elfData SHSTRNDX
      let shstrndxHdr ← s.sectionHeader shstrndx.toNat
      let offset ← wordAt s.elfData (shstrndxHdr + 16)
      let nameOffset ← wordAt s.elfData sHdr
      if ← nameStarts s.elfData (offset.toNat + nameOffset.toNat) name
      then pure (some sHdr)
      else findSection name idxs

/-- `getSectionHeader(name)` -/
def getSectionHeader (name : List U8) : Proc (Option Nat) := do
  let shnum ← halfAt s.elfData SHNUM
  s.findSection name (List.range shnum.toNat)

end ElfParser

end T89Emu
