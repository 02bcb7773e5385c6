/-
Line number information of a compile unit (LineNumberInfo.cpp): the
header of a line program, the names of its source files, and the state
machine that builds the line table.

Whether a source file can be opened, and what its lines are, is not up
to this code: it is a parameter.

The state machine's loop takes fuel, the number of bytes in front of the
cursor and one more: every round reads a byte.
-/
import T89Emu.Dwarf.CompileUnit

namespace T89Emu.Dwarf

open Cpp

-- ================================================================ header

/-- A row of a file table: the columns that the format lists. -/
abbrev FileEntry := List (ContentEncoding × DebugData)

/-- `dirEntry[content] = data`. -/
def FileEntry.assign (entry : FileEntry) (content : ContentEncoding)
    (data : DebugData) : FileEntry :=
  (content, data) :: entry.filter fun column => column.1 ≠ content

/-- `entry[content]->`: a column that is missing is a null pointer. -/
def FileEntry.column (entry : FileEntry) (content : ContentEncoding) :
    Proc DebugData :=
  match entry.lookup content with
  | some data => pure data
  | none => throw .nullDereference

structure ProgramHeader where
  unitLength : U32
  version : U16
  addressSize : U8
  segmentSelectorSize : U8
  headerLength : U32
  minimumInstructionLength : U8
  maximumOperationsPerInstruction : U8
  defaultIsStmt : U8
  lineBase : U8
  lineRange : U8
  opcodeBase : U8
  standardOpcodeLengths : List U8
  directoryEntryFormatCount : U8
  directoryEntryFormat : List (ContentEncoding × FormEncoding)
  directoriesCount : U32
  directories : List FileEntry
  fileNameEntryFormatCount : U8
  fileNameEntryFormat : List (ContentEncoding × FormEncoding)
  fileNamesCount : U32
  fileNames : List FileEntry
  deriving DecidableEq, Repr

/-- `n` values read one behind the other. -/
def repeatDecoder {α : Type} (decode : Decoder α) : Nat → Decoder (List α)
  | 0 => pure []
  | n + 1 => do
      let a ← decode
      let as ← repeatDecoder decode n
      pure (a :: as)

def generateFileFormatInfo :
    Decoder (U8 × List (ContentEncoding × FormEncoding)) := do
  let numEntries ← decodeUInt8
  let formatEntries ← repeatDecoder (do
    let content ← decodeULeb128
    let form ← decodeULeb128
    pure (ContentEncoding.ofCode content, FormEncoding.ofCode form))
    numEntries.toNat
  pure (numEntries, formatEntries)

/-- One row of a file table. -/
def decodeFileEntry (u : CompileUnit) :
    List (ContentEncoding × FormEncoding) → FileEntry → Decoder FileEntry
  | [], entry => pure entry
  | (content, form) :: fileFormat, entry => do
      let data ← u.decodeInfo ⟨.AtReserved0, form, 0⟩
      decodeFileEntry u fileFormat (entry.assign content data)

def generateFileInformation (u : CompileUnit)
    (fileFormat : List (ContentEncoding × FormEncoding)) :
    Decoder (U32 × List FileEntry) := do
  let numEntries := (← decodeULeb128).setWidth 32
  let fileEntries ← repeatDecoder (decodeFileEntry u fileFormat [])
    numEntries.toNat
  pure (numEntries, fileEntries)

def parseProgramHeader (u : CompileUnit) : Decoder ProgramHeader := do
  let unitLength ← decodeUInt32
  let version ← decodeUInt16
  let addressSize ← decodeUInt8
  let segmentSelectorSize ← decodeUInt8
  let headerLength ← decodeUInt32
  let minimumInstructionLength ← decodeUInt8
  let maximumOperationsPerInstruction ← decodeUInt8
  let defaultIsStmt ← decodeUInt8
  let lineBase ← decodeUInt8
  let lineRange ← decodeUInt8
  let opcodeBase ← decodeUInt8
  let standardOpcodeLengths ←
    repeatDecoder decodeUInt8 (opcodeBase.toNat - 1)
  let (directoryEntryFormatCount, directoryEntryFormat) ←
    generateFileFormatInfo
  let (directoriesCount, directories) ←
    generateFileInformation u directoryEntryFormat
  let (fileNameEntryFormatCount, fileNameEntryFormat) ←
    generateFileFormatInfo
  let (fileNamesCount, fileNames) ←
    generateFileInformation u fileNameEntryFormat
  pure {
    unitLength, version, addressSize, segmentSelectorSize, headerLength,
    minimumInstructionLength, maximumOperationsPerInstruction,
    defaultIsStmt, lineBase, lineRange, opcodeBase, standardOpcodeLengths,
    directoryEntryFormatCount, directoryEntryFormat, directoriesCount,
    directories, fileNameEntryFormatCount, fileNameEntryFormat,
    fileNamesCount, fileNames }

-- ========================================================== source files

/-- The lines of the file at a path, when it can be opened. -/
abbrev FileSystem := List U8 → Option (List (List U8))

structure SourceInfo where
  path : List U8
  lines : List (List U8)
  deriving DecidableEq, Repr

def SourceInfo.new (files : FileSystem) (path : List U8) :
    Proc SourceInfo :=
  match files path with
  | some lines => pure ⟨path, lines⟩
  | none => throw .exit

/-- The character `/`. -/
def slash : U8 := 0x2f

/-- The member `name`: what is behind the last `/`. -/
def SourceInfo.getName (source : SourceInfo) : List U8 :=
  (source.path.reverse.takeWhile fun c => c ≠ slash).reverse

/-- The full path of a directory. -/
def fullPath (compileDirectory dirPath : List U8) : List U8 :=
  if dirPath.head? = some slash then dirPath
  else compileDirectory ++ [slash] ++ dirPath

def generateFilePaths (files : FileSystem) (infoHeader : ProgramHeader) :
    Proc (List SourceInfo) := do
  let first ← deref infoHeader.directories[0]?
  let compileDirectory := (← first.column .path).getString
  let dirPaths ← infoHeader.directories.mapM fun directory => do
    let dirPath := (← directory.column .path).getString
    pure (fullPath compileDirectory dirPath)
  infoHeader.fileNames.mapM fun file => do
    let directoryIndex := (← (← file.column .directory_index).getUInt)
    let dirPath ← deref dirPaths[(directoryIndex.setWidth 32).toNat]?
    let name := (← file.column .path).getString
    SourceInfo.new files (dirPath ++ [slash] ++ name)

-- ========================================================= state machine

/-- A row of the line table. -/
structure LineEntry where
  address : U32
  line : U32
  column : U32
  file : U32
  isStmt : Bool
  prologueEnd : Bool
  epilogueBegin : Bool
  deriving DecidableEq, Repr

/-- The registers of the state machine and the table built so far. -/
structure LineMachine where
  address : U32
  opIndex : U32
  file : U32
  line : U32
  column : U32
  isStmt : Bool
  basicBlock : Bool
  endSequence : Bool
  prologueEnd : Bool
  epilogueBegin : Bool
  isa : U32
  discriminator : U32
  lineMatrix : List LineEntry
  deriving DecidableEq, Repr

namespace LineMachine

variable (infoHeader : ProgramHeader) (m : LineMachine)

def clearRegisters : LineMachine :=
  { m with
    basicBlock := false, endSequence := false, prologueEnd := false
    epilogueBegin := false
    address := 0, opIndex := 0, column := 0, isa := 0, discriminator := 0
    isStmt := infoHeader.defaultIsStmt ≠ 0#8
    file := 1, line := 1 }

/-- `lineMatrix.push_back(new LineEntry(address, line, …))`. -/
def pushEntry : LineMachine :=
  { m with
    lineMatrix := m.lineMatrix ++ [⟨m.address, m.line, m.column, m.file,
      m.isStmt, m.prologueEnd, m.epilogueBegin⟩] }

/-- What is reset behind a row. -/
def resetFlags : LineMachine :=
  { m with
    basicBlock := false, prologueEnd := false, epilogueBegin := false
    discriminator := 0 }

/-- An unsigned division. -/
def divide (a b : U32) : Proc U32 :=
  if b = 0#32 then throw .divisionByZero else pure (a / b)

/-- An unsigned remainder. -/
def remainder (a b : U32) : Proc U32 :=
  if b = 0#32 then throw .divisionByZero else pure (a % b)

def getNewAddress (operationAdvance : U32) : Proc U32 := do
  let quotient ← divide (m.opIndex + operationAdvance)
    (infoHeader.maximumOperationsPerInstruction.setWidth 32)
  pure (m.address
    + infoHeader.minimumInstructionLength.setWidth 32 * quotient)

def getNewOpIndex (operationAdvance : U32) : Proc U32 :=
  remainder (m.opIndex + operationAdvance)
    (infoHeader.maximumOperationsPerInstruction.setWidth 32)

/-- `address = getNewAddress(…); opIndex = getNewOpIndex(…);` -/
def advance (operationAdvance : U32) : Proc LineMachine := do
  let address ← m.getNewAddress infoHeader operationAdvance
  let opIndex ← m.getNewOpIndex infoHeader operationAdvance
  pure { m with address, opIndex }

/-- The quotient that special opcodes and DW_LNS_const_add_pc advance
by. -/
def operationAdvance (adjustedOpcode : U32) : Proc U32 :=
  divide adjustedOpcode (infoHeader.lineRange.setWidth 32)

def specialOpcode (opcode : U8) : Proc LineMachine := do
  let adjustedOpcode := (opcode - infoHeader.opcodeBase).setWidth 32
  let m ← m.advance infoHeader
    (← operationAdvance infoHeader adjustedOpcode)
  let rest ← remainder adjustedOpcode (infoHeader.lineRange.setWidth 32)
  let m := { m with
    line := m.line + (infoHeader.lineBase.signExtend 32 + rest) }
  pure m.pushEntry.resetFlags

def standardOpcode (opcode : U8) : Decoder LineMachine :=
  match opcode.toNat with
  | 0x01 => pure m.pushEntry.resetFlags
  | 0x02 => do
      let operationAdvance := (← decodeULeb128).setWidth 32
      m.advance infoHeader operationAdvance
  | 0x03 => do
      let delta ← decodeLeb128
      pure { m with line := m.line + delta.setWidth 32 }
  | 0x04 => do
      let file ← decodeULeb128
      pure { m with file := file.setWidth 32 }
  | 0x05 => do
      let column ← decodeULeb128
      pure { m with column := column.setWidth 32 }
  | 0x06 => pure { m with isStmt := !m.isStmt }
  | 0x07 => pure { m with basicBlock := true }
  | 0x08 => do
      let adjustedOpcode := (255#8 - infoHeader.opcodeBase).setWidth 32
      m.advance infoHeader (← operationAdvance infoHeader adjustedOpcode)
  | 0x09 => do
      let delta ← decodeUInt16
      pure { m with address := m.address + delta.setWidth 32, opIndex := 0 }
  | 0x0a => pure { m with prologueEnd := true }
  | 0x0b => pure { m with epilogueBegin := true }
  | 0x0c => do
      let isa ← decodeULeb128
      pure { m with isa := isa.setWidth 32 }
  | _ => pure m

def extendedOpcode : Decoder LineMachine := do
  let _ ← decodeULeb128
  let opcode ← decodeUInt8
  match opcode.toNat with
  | 0x01 =>
      pure ({ m with endSequence := true }.pushEntry.clearRegisters
        infoHeader)
  | 0x02 =>
      let address ← decodeUInt32
      pure { m with address, opIndex := 0 }
  | 0x04 =>
      let discriminator ← decodeULeb128
      pure { m with discriminator := discriminator.setWidth 32 }
  | _ => pure m

/-- One round of the loop. -/
def step : Decoder LineMachine := do
  let opcode ← decodeUInt8
  if infoHeader.opcodeBase ≤ opcode then m.specialOpcode infoHeader opcode
  else if opcode ≠ 0#8 then m.standardOpcode infoHeader opcode
  else m.extendedOpcode infoHeader

/-- The loop of `generateLineNumberMatrix`. -/
def loop : Nat → LineMachine → Decoder LineMachine
  | 0, _ => throw .running
  | fuel + 1, m => do
      if (← get).isStreamable then
        let m ← m.step infoHeader
        loop fuel m
      else pure m

/-- The machine before the constructor clears its registers; what they
hold then is not used. -/
def empty : LineMachine :=
  ⟨0, 0, 0, 0, 0, false, false, false, false, false, 0, 0, []⟩

end LineMachine

/-- `clearRegisters` and `generateLineNumberMatrix`, as the constructor
calls them. -/
def generateLineNumberMatrix (infoHeader : ProgramHeader) :
    Decoder LineMachine := fun s =>
  LineMachine.loop infoHeader (s.rest.length + 1)
    (LineMachine.empty.clearRegisters infoHeader) s

-- ======================================================= the information

/-- `debugLineStart` is what the stream's pointer refers to, as an offset
in the file. -/
structure LineNumberInfo where
  debugLineStart : Nat
  infoHeader : ProgramHeader
  lineMatrix : List LineEntry
  sourceInfo : List SourceInfo
  deriving DecidableEq, Repr

namespace LineNumberInfo

/-- The constructor; the pointer is one into the bytes of the file. -/
def new (files : FileSystem) (u : CompileUnit) (elfData : List U8)
    (debugLineStart : Nat) : Proc LineNumberInfo := do
  let data := some (elfData.drop debugLineStart)
  let (unitLength, _) ← decodeUInt32 (.unbounded data)
  let stream : DataStream := ⟨data, 0, (4 + unitLength).toNat⟩
  let (infoHeader, stream) ← parseProgramHeader u stream
  let sourceInfo ← generateFilePaths files infoHeader
  let (m, _) ← generateLineNumberMatrix infoHeader stream
  pure ⟨debugLineStart, infoHeader, m.lineMatrix, sourceInfo⟩

/-- `getLength`: the sum is one of 32 bits. -/
def getLength (info : LineNumberInfo) : U32 :=
  4 + info.infoHeader.unitLength

def getLineEntryAtPc (info : LineNumberInfo) (pc : U32) :
    Option LineEntry :=
  info.lineMatrix.find? fun lineEntry => lineEntry.address = pc

def getLineNumberAtPc (info : LineNumberInfo) (pc : U32) : U32 :=
  match info.getLineEntryAtPc pc with
  | some lineEntry => lineEntry.line
  | none => 0

def getSourceNameAtPc (info : LineNumberInfo) (pc : U32) :
    Proc (List U8) :=
  match info.getLineEntryAtPc pc with
  | some lineEntry => do
      let source ← deref info.sourceInfo[lineEntry.file.toNat]?
      pure source.getName
  | none => pure []

def containsPath (sources : List SourceInfo) (path : List U8) : Bool :=
  sources.any fun source => path = source.path

end LineNumberInfo

end T89Emu.Dwarf
