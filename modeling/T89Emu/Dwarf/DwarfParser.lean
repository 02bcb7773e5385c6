/-
The debug information of a file (DwarfParser.cpp and the constructors of
CompileUnit.cpp and AbbrevTable).

Pointers into the file's bytes are offsets, as in the ELF parser. The
loop over the units takes fuel that is a parameter: nothing in the code
says that a unit has a length.
-/
import T89Emu.Dwarf.CallFrameInfo
import T89Emu.Dwarf.LineNumberInfo
import T89Emu.Dwarf.Scope
import T89Emu.Elf.ElfParser

namespace T89Emu.Dwarf

open Cpp

-- ========================================================= abbreviations

/-- The inner loop of `AbbrevTable`: the attributes of a declaration. -/
def decodeAttributeEntries : Nat → Decoder (List AttributeEntry)
  | 0 => throw .running
  | fuel + 1 => do
      let name ← decodeULeb128
      let form ← decodeULeb128
      if name.setWidth 32 = 0#32 ∧ form.setWidth 32 = 0#32 then pure []
      else
        let special ←
          if FormEncoding.ofCode form = .implicit_const then decodeULeb128
          else pure 0
        let entries ← decodeAttributeEntries fuel
        pure (⟨.ofCode name, .ofCode form, special⟩ :: entries)

/-- `abbrevEntries.insert`: a code that is there already stays. -/
def AbbrevTable.insert (t : AbbrevTable) (dieCode : U64)
    (abbrevEntry : AbbrevEntry) : AbbrevTable :=
  match t.abbrevEntries.lookup dieCode with
  | some _ => t
  | none => ⟨t.abbrevEntries ++ [(dieCode, abbrevEntry)]⟩

/-- The outer loop: the declarations up to code 0. -/
def decodeAbbrevEntries : Nat → AbbrevTable → Decoder AbbrevTable
  | 0, _ => throw .running
  | fuel + 1, t => do
      let dieCode ← decodeULeb128
      if dieCode = 0#64 then pure t
      else
        let dieTag ← decodeULeb128
        let hasChild ← decodeULeb128
        let s ← get
        let attEntries ← decodeAttributeEntries (s.rest.length + 1)
        decodeAbbrevEntries fuel (t.insert dieCode
          ⟨dieCode, .ofCode dieTag, hasChild ≠ 0#64, attEntries⟩)

/-- `AbbrevTable(abbrevTableStart)`, of the bytes of the file from there
on. -/
def AbbrevTable.new (abbrevTableStart : List U8) : Proc AbbrevTable := do
  let abbrevData := DataStream.unbounded (some abbrevTableStart)
  let (t, _) ← decodeAbbrevEntries (abbrevTableStart.length + 1) ⟨[]⟩
    abbrevData
  pure t

-- ======================================================== the sections

/-- Where the constructor finds the debug sections in the file. -/
structure DebugSections where
  elfData : List U8
  debugInfoStart : Nat
  debugInfoSize : U32
  debugAbbrevStart : Nat
  debugStrStart : Nat
  debugLineStrStart : Nat
  debugLineStart : Nat
  debugFrameStart : Nat
  debugFrameSize : U32
  deriving DecidableEq, Repr

/-- The characters of a section's name. -/
def sectionName (name : String) : List U8 :=
  name.toList.map fun c => BitVec.ofNat 8 c.toNat

/-- `getSectionHeader(name)`, used without a check. -/
def sectionOf (elf : ElfParser) (name : String) : Proc Nat := do
  ElfParser.dereference (← elf.getSectionHeader (sectionName name))

/-- `header->offset` and `header->size` -/
def shOffset (elf : ElfParser) (header : Nat) : Eval U32 :=
  Elf.wordAt elf.elfData (header + 16)

def shSize (elf : ElfParser) (header : Nat) : Eval U32 :=
  Elf.wordAt elf.elfData (header + 20)

/-- The first part of the constructor: the sections, found by name. -/
def findSections (elf : ElfParser) : Proc DebugSections := do
  let debugInfo ← sectionOf elf ".debug_info"
  let debugAbbrev ← sectionOf elf ".debug_abbrev"
  let debugStr ← sectionOf elf ".debug_str"
  let debugLineStr ← sectionOf elf ".debug_line_str"
  let debugLine ← sectionOf elf ".debug_line"
  let debugFrame ← sectionOf elf ".debug_frame"
  pure {
    elfData := elf.elfData
    debugInfoStart := (← shOffset elf debugInfo).toNat
    debugInfoSize := ← shSize elf debugInfo
    debugAbbrevStart := (← shOffset elf debugAbbrev).toNat
    debugStrStart := (← shOffset elf debugStr).toNat
    debugLineStrStart := (← shOffset elf debugLineStr).toNat
    debugLineStart := (← shOffset elf debugLine).toNat
    debugFrameStart := (← shOffset elf debugFrame).toNat
    debugFrameSize := ← shSize elf debugFrame }

-- ========================================================= compile units

/-- The header of a unit in .debug_info. -/
structure CompileUnitHeader where
  unitLength : U32
  version : U16
  unitType : U8
  addressSize : U8
  debugAbbrevOffset : U32
  deriving DecidableEq, Repr

/-- `sizeof(FullCompileUnitHeader)` -/
def headerLen : Nat := 12

def decodeUnitHeader : Decoder CompileUnitHeader := do
  let unitLength ← decodeUInt32
  let version ← decodeUInt16
  let unitType ← decodeUInt8
  let addressSize ← decodeUInt8
  let debugAbbrevOffset ← decodeUInt32
  pure { unitLength, version, unitType, addressSize, debugAbbrevOffset }

/-- `CompileUnitHeader(…)`: an address size other than 4 ends the
program. -/
def CompileUnitHeader.new (bytes : List U8) : Proc CompileUnitHeader := do
  let (header, _) ← decodeUnitHeader (.unbounded (some bytes))
  if header.addressSize = 4 then pure header else throw .exit

/-- A unit as the parser keeps it. `root` is `none` when the root entry
was deleted again. -/
structure Unit where
  compileUnitLen : U32
  debugLine : LineNumberInfo
  root : Option DebugInfoEntry

/-- The constructor of a unit up to its line table: its length, what its
entries are decoded with, and the stream of its entries. -/
def openUnit (d : DebugSections) (debugInfoCUHeader : Nat) :
    Proc (U32 × CompileUnit × DataStream) := do
  let header ← CompileUnitHeader.new (d.elfData.drop debugInfoCUHeader)
  let compileUnitLen := 4 + header.unitLength
  let abbrevTable ← AbbrevTable.new
    (d.elfData.drop (d.debugAbbrevStart + header.debugAbbrevOffset.toNat))
  let debugStream : DataStream :=
    ⟨some (d.elfData.drop (debugInfoCUHeader + headerLen)), 0,
      (compileUnitLen.setWidth 64 - 12#64).toNat⟩
  let u : CompileUnit := {
    addressSize := header.addressSize
    abbrevTable
    debugStr := ⟨d.elfData, d.debugStrStart⟩
    debugLineStr := ⟨d.elfData, d.debugLineStrStart⟩
    streamOffset := debugInfoCUHeader + headerLen - d.debugInfoStart }
  pure (compileUnitLen, u, debugStream)

/-- `CompileUnit(dwarfParser, debugInfoCUHeader)`; `debugLineStart` is
what the parser's pointer is at that moment. -/
def Unit.new (files : FileSystem) (d : DebugSections)
    (debugInfoCUHeader debugLineStart : Nat) : Proc Unit := do
  let (compileUnitLen, u, debugStream) ← openUnit d debugInfoCUHeader
  let debugLine ← LineNumberInfo.new files u d.elfData debugLineStart
  let (root, _) ← u.generateDebugInfo none debugStream
  pure ⟨compileUnitLen, debugLine, root.kept⟩

namespace Unit

def getDebugInfoLength (unit : Unit) : Nat := unit.compileUnitLen.toNat

def getDebugLineLength (unit : Unit) : Nat :=
  unit.debugLine.getLength.toNat

/-- A use of the root entry. -/
def rootEntry (unit : Unit) : Proc DebugInfoEntry :=
  match unit.root with
  | some root => pure root
  | none => throw .dangling

end Unit

-- ============================================================ the parser

/-- A compile unit with its scopes. -/
structure ParsedUnit where
  unit : Unit
  rootScope : Scope

structure DwarfParser where
  compileUnits : List ParsedUnit
  debugFrame : CallFrameInfo
  typeEntries : TypeEntries

/-- One round of the loop over the units. -/
def parseUnit (files : FileSystem) (d : DebugSections)
    (debugInfoOffset debugLineStart : Nat) : Proc ParsedUnit := do
  let unit ← Unit.new files d debugInfoOffset debugLineStart
  let rootScope ← generateScopes (← unit.rootEntry)
  pure ⟨unit, rootScope⟩

/-- The loop over the units. -/
def unitLoop (files : FileSystem) (d : DebugSections) :
    Nat → Nat → Nat → Proc (List ParsedUnit)
  | 0, _, _ => throw .running
  | fuel + 1, debugInfoOffset, debugLineStart => do
      if d.debugInfoStart + d.debugInfoSize.toNat ≤ debugInfoOffset then
        pure []
      else
        let unit ← parseUnit files d debugInfoOffset debugLineStart
        let units ← unitLoop files d fuel
          (debugInfoOffset + unit.unit.getDebugInfoLength)
          (debugLineStart + unit.unit.getDebugLineLength)
        pure (unit :: units)

/-- `generateTypes` of all units. -/
def generateAllTypes : List ParsedUnit → TypeEntries → Proc TypeEntries
  | [], typeEntries => pure typeEntries
  | unit :: units, typeEntries => do
      let typeEntries ← generateTypes (← unit.unit.rootEntry) typeEntries
      generateAllTypes units typeEntries

namespace DwarfParser

/-- The constructor from the sections on. -/
def ofSections (files : FileSystem) (fuel : Nat) (d : DebugSections) :
    Proc DwarfParser := do
  let compileUnits ←
    unitLoop files d fuel d.debugInfoStart d.debugLineStart
  let debugFrame ← CallFrameInfo.new (d.elfData.drop d.debugFrameStart)
    d.debugFrameSize.toNat
  let typeEntries ← generateAllTypes compileUnits []
  pure ⟨compileUnits, debugFrame, typeEntries⟩

/-- `DwarfParser(fileName)` of the file with these bytes. -/
def new (files : FileSystem) (fuel : Nat) (file : List U8) :
    Proc DwarfParser := do
  match ← ElfParser.initStructures file with
  | none => throw .exit
  | some elf => ofSections files fuel (← findSections elf)

/-- The loop of `getCompileUnitAtPc` from an index on, with fuel. The
index has no sign, so that its test always holds; the largest index
follows 0. -/
def compileUnitLoop (p : DwarfParser) (pc : U32) :
    Nat → U64 → Proc (Option ParsedUnit)
  | 0, _ => throw .running
  | fuel + 1, i =>
      if 0 ≤ i then do
        let unit ← deref p.compileUnits[i.toNat]?
        if unit.rootScope.isPcInRange pc then pure (some unit)
        else compileUnitLoop p pc fuel (i - 1)
      else pure none

/-- `getCompileUnitAtPc`: the loop runs down from the last unit, and its
index has no sign, so that it never ends without a unit. -/
def getCompileUnitAtPc (p : DwarfParser) (pc : U32) : Proc ParsedUnit :=
  match p.compileUnits.reverse.find? (·.rootScope.isPcInRange pc) with
  | some unit => pure unit
  | none => throw (.undefined .outOfBounds)

def getLineNumberAtPc (p : DwarfParser) (pc : U32) : Proc U32 := do
  let unit ← p.getCompileUnitAtPc pc
  pure (unit.unit.debugLine.getLineNumberAtPc pc)

def getSourceNameAtPc (p : DwarfParser) (pc : U32) : Proc (List U8) := do
  let unit ← p.getCompileUnitAtPc pc
  unit.unit.debugLine.getSourceNameAtPc pc

/-- `getSourceInfo`, which is kept in the member `sourceInfo`. -/
def getSourceInfo (p : DwarfParser) (sourceInfo : List SourceInfo) :
    List SourceInfo :=
  if sourceInfo.isEmpty then
    p.compileUnits.foldl (fun sourceInfo cu =>
      cu.unit.debugLine.sourceInfo.foldl (fun sourceInfo source =>
        if LineNumberInfo.containsPath sourceInfo source.path then sourceInfo
        else sourceInfo ++ [source]) sourceInfo) sourceInfo
  else sourceInfo

end DwarfParser

end T89Emu.Dwarf
