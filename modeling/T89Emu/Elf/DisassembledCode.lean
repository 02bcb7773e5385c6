/-
The listing of the disassembly (`generateDisassembledCode`,
`getSymbolAtAddress` and `getDisassembledCode` of ElfParser.cpp).

Everything executable is listed word by word, data in between as well,
and in front of a word the first symbol with its address. The vectors
that are filled on the way are members of the parser and are never
emptied: `Disassembly`. What a round of a loop appends to one of them is
a function of its own, with the empty list or `none` for a `continue`.

The exception of the name tables is not caught, so a word without a name
ends the listing. A word for which nothing is printed does not: its row
is there, and its text is whatever was in the buffer.
-/
import T89Emu.Dwarf.DwarfParser
import T89Emu.Elf.Disassembler

namespace T89Emu

open Cpp Dwarf

namespace Elf

def STT_OBJECT : U8 := 1
def STT_SECTION : U8 := 3
def STT_FILE : U8 := 4

def ELF32_ST_TYPE (info : U8) : U8 := info &&& 0xf

/-- `sizeof(ElfSymbol)`. -/
def SYMBOL_SIZE : Nat := 16

/-- `"$x"` -/
def DOLLAR_X : List U8 := [0x24, 0x78]

variable (elfData : List U8)

/-- `startSym->name`, `startSym->value`, … -/
def symName (p : Nat) : Eval U32 := wordAt elfData p
def symValue (p : Nat) : Eval U32 := wordAt elfData (p + 4)
def symInfo (p : Nat) : Eval U8 := byteAt elfData (p + 12)

/-- The string that these bytes start with. -/
def cString : List U8 → Eval (List U8)
  | [] => .error .outOfBounds
  | c :: cs =>
      if c = 0#8 then .ok []
      else do
        let str ← cString cs
        .ok (c :: str)

end Elf

open Elf

namespace ElfParser

/-- An entry of the listing. That of a symbol has no instruction: the
member is never assigned. That of an instruction has `none` for its text
when the buffer was not printed to. -/
inductive CodeEntry
  | symbol (address : U32) (line : List U8)
  | instruction (address instruction : U32) (line : Option String)
  deriving DecidableEq, Repr

/-- What keeps the listing from being generated. -/
inductive Unlisted
  | halt (reason : Halt)
  | outOfRange -- thrown by `std::vector::at`
  deriving DecidableEq, Repr

abbrev Lister := Except Unlisted

instance : MonadLift Proc Lister := ⟨Except.mapError .halt⟩

/-- The vectors of the parser. -/
structure Disassembly where
  symbols : List (U32 × List U8)
  executableSections : List Nat
  disassembledCode : List CodeEntry
  deriving DecidableEq, Repr

def Disassembly.empty : Disassembly := ⟨[], [], []⟩

variable (s : ElfParser)

-- ============================================================ the symbols

/-- What is kept of a symbol, unless it is passed over. The test of the
type that follows the `switch` in the source decides nothing. -/
def symbolAt (strtabStr startSym : Nat) :
    Proc (List (U32 × List U8)) := do
  let name ← symName s.elfData startSym
  let symbolAddr ← symValue s.elfData startSym
  let symbolName ← cString (s.elfData.drop (strtabStr + name.toNat))
  if symbolName = DOLLAR_X ∨ symbolName = [] then pure []
  else
    let info ← symInfo s.elfData startSym
    if ELF32_ST_TYPE info = STT_OBJECT ∨ ELF32_ST_TYPE info = STT_SECTION
        ∨ ELF32_ST_TYPE info = STT_FILE then pure []
    else pure [(symbolAddr, symbolName)]

/-- The loop over the symbol table: a symbol that begins inside of it
counts. -/
def loadSymbols (symbols : List (U32 × List U8)) :
    Proc (List (U32 × List U8)) := do
  let strtabHdr ← s.getSectionHeader (sectionName ".strtab")
  let symtabHdr ← s.getSectionHeader (sectionName ".symtab")
  let symtabHdr ← dereference symtabHdr
  let symtab ← shOffset s symtabHdr
  let size ← shSize s symtabHdr
  let strtabHdr ← dereference strtabHdr
  let strtab ← shOffset s strtabHdr
  let count := (size.toNat + (SYMBOL_SIZE - 1)) / SYMBOL_SIZE
  (List.range count).foldlM (fun symbols i => do
    let symbol ←
      s.symbolAt strtab.toNat (symtab.toNat + SYMBOL_SIZE * i)
    pure (symbols ++ symbol)) symbols

/-- `getSymbolAtAddress` -/
def getSymbolAtAddress (symbols : List (U32 × List U8)) (addr : U32) :
    Option (U32 × List U8) :=
  symbols.find? fun symbol => symbol.1 = addr

-- =========================================================== the segments

/-- A header of the loop over the program headers, if it is that of an
executable segment. -/
def executableAt (idx : Nat) : Proc (List Nat) := do
  let pHdr ← getProgramHeader s.elfData idx
  let flags ← phFlags s.elfData pHdr
  pure (if flags &&& 1 = PF_X then [pHdr] else [])

def loadExecutables (executableSections : List Nat) :
    Proc (List Nat) := do
  let phnum ← halfAt s.elfData PHNUM
  (List.range phnum.toNat).foldlM (fun sections idx => do
    let pHdr ← s.executableAt idx
    pure (sections ++ pHdr)) executableSections

/-- `"<" + addrSymb->second + ">:"` -/
def labelAt (symbols : List (U32 × List U8)) (curAddr : U32) :
    List CodeEntry :=
  match getSymbolAtAddress symbols curAddr with
  | some addrSymb => [.symbol curAddr ([0x3c] ++ addrSymb.2 ++ [0x3e, 0x3a])]
  | none => []

/-- `generateInstructionStr(disassembledLine)`, as a text of the
listing. -/
def lineOf (entry : DisassembledEntry) : Lister (Option String) :=
  match generateInstructionStr entry with
  | .ok line => .ok (some line)
  | .error .unwritten => .ok none
  | .error .outOfRange => .error .outOfRange

/-- The entries of a word of a segment, `idx` behind its start. -/
def entriesAt (symbols : List (U32 × List U8)) (pHdr : Nat)
    (addressStart : U32) (idx : Nat) : Lister (List CodeEntry) := do
  let curAddr := addressStart + BitVec.ofNat 32 idx
  let offset ← (phOffset s.elfData pHdr : Proc U32)
  let instruction ← (wordAt s.elfData (offset.toNat + idx) : Proc U32)
  let line ← lineOf ⟨curAddr, instruction⟩
  pure (labelAt symbols curAddr ++ [.instruction curAddr instruction line])

/-- The entries of a segment. No file is so long that `idx` could wrap
around before a word is outside of it. -/
def sectionEntries (symbols : List (U32 × List U8)) (pHdr : Nat) :
    Lister (List CodeEntry) := do
  let memsz ← (phMemsz s.elfData pHdr : Proc U32)
  let filesz ← (phFilesz s.elfData pHdr : Proc U32)
  let sectionSize := if memsz < filesz then memsz else filesz
  let addressStart ← (phPaddr s.elfData pHdr : Proc U32)
  (List.range ((sectionSize.toNat + 3) / 4)).foldlM (fun code i => do
    let entries ← s.entriesAt symbols pHdr addressStart (4 * i)
    pure (code ++ entries)) []

-- ============================================================ the listing

/-- `generateDisassembledCode` -/
def generateDisassembledCode (d : Disassembly) : Lister Disassembly := do
  let symbols ← s.loadSymbols d.symbols
  let executableSections ← s.loadExecutables d.executableSections
  let disassembledCode ← executableSections.foldlM (fun code pHdr => do
    let entries ← s.sectionEntries symbols pHdr
    pure (code ++ entries)) d.disassembledCode
  pure { symbols, executableSections, disassembledCode }

/-- `getDisassembledCode` -/
def getDisassembledCode (d : Disassembly) : Lister Disassembly :=
  if d.disassembledCode = [] then s.generateDisassembledCode d else pure d

end ElfParser

end T89Emu
