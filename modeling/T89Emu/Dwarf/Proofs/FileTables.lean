/-
The information of a line program is read back as it was written.

The tables of directories and of files say themselves how their rows are
written: their format lists what the columns hold and in which form. A
`FileTable` is such a table as it is encoded, and any of them is read
back, whatever its columns (`reads_fileInformation`). What is between the
tables and the end of the unit is the program, and its table of lines the
one of the state machine (`lineNumberInfo_eq`).

A name of a file is relative to a directory, and a directory to the
first one, in which the unit was compiled: `LineUnit.paths` is what the
names stand for.
-/
import T89Emu.Dwarf.Proofs.Abbreviation
import T89Emu.Dwarf.Proofs.LineProgram
import T89Emu.Dwarf.Proofs.SourceFiles

namespace T89Emu.Dwarf

open Cpp Decode LineProgram

-- ======================================================= what is written

/-- A table of directories or files as it is encoded: the content and the
form of each column, the number of the rows, and the word and the value in
each column of a row. -/
structure FileTable where
  format : List (Leb128 × Leb128)
  count : Leb128
  rows : List (List (List U8 × List U8))

namespace FileTable

variable (t : FileTable)

def columns : List (ContentEncoding × FormEncoding) :=
  t.format.map fun column =>
    (.ofCode (ulebValue column.1), .ofCode (ulebValue column.2))

def formatBytes : List U8 :=
  BitVec.ofNat 8 t.format.length
    :: t.format.flatMap fun column => column.1.bytes ++ column.2.bytes

def rowBytes : List U8 :=
  t.count.bytes ++ t.rows.flatMap fun row => row.flatMap Prod.fst

/-- What a row holds, column by column. -/
def cells (row : List (List U8 × List U8)) : FileEntry :=
  List.zipWith (fun column value => (column.1, ⟨column.2, value.2⟩))
    t.columns row

/-- The value of a row in the last column of a content. -/
def value (row : List (List U8 × List U8)) (content : ContentEncoding) :
    Option DebugData :=
  (t.cells row).reverse.lookup content

/-- The table can be written: its numbers fit, and every row has a value
for each column, encoded in the column's form. -/
structure Fits (u : CompileUnit) : Prop where
  columns : t.format.length < 2 ^ 8
  codes : ∀ column ∈ t.format, column.1.size ≤ 5 ∧ column.2.size ≤ 5
  short : Fits32 t.count
  count : t.count.unsigned = t.rows.length
  rows : ∀ row ∈ t.rows, List.Forall₂
    (fun column (value : List U8 × List U8) =>
      Encodes u (2 ^ 31) 0 column.2 value.1 value.2) t.columns row

/-- What the parser makes of a row. -/
def entry (row : List (List U8 × List U8)) : FileEntry :=
  (t.cells row).foldl (fun entry cell => entry.assign cell.1 cell.2) []

end FileTable

/-- A line program as it is encoded: the fields of its header, the two
tables and the instructions. -/
structure LineUnit where
  version : U16
  addressSize : U8
  segmentSelectorSize : U8
  headerLength : U32
  minimumInstructionLength : U8
  maximumOperationsPerInstruction : U8
  defaultIsStmt : U8
  lineBase : U8
  lineRange : U8
  opcodeBase : U8
  standardOpcodeLengths : List U8
  directories : FileTable
  fileNames : FileTable
  program : List Instr

namespace LineUnit

variable (l : LineUnit)

/-- The header behind its length. -/
def fieldBytes : List U8 :=
  word16 l.version ++ (l.addressSize :: l.segmentSelectorSize
    :: (word32 l.headerLength ++ (l.minimumInstructionLength
      :: l.maximumOperationsPerInstruction :: l.defaultIsStmt
      :: l.lineBase :: l.lineRange :: l.opcodeBase
      :: (l.standardOpcodeLengths
        ++ (l.directories.formatBytes ++ (l.directories.rowBytes
          ++ (l.fileNames.formatBytes ++ l.fileNames.rowBytes)))))))

/-- The length of the unit behind its length. -/
def unitLength : Nat :=
  l.fieldBytes.length + (LineProgram.bytes l.program).length

def headerBytes : List U8 :=
  word32 (BitVec.ofNat 32 l.unitLength) ++ l.fieldBytes

def bytes : List U8 := l.headerBytes ++ LineProgram.bytes l.program

/-- The header that the parser is expected to read. -/
def header : ProgramHeader where
  unitLength := BitVec.ofNat 32 l.unitLength
  version := l.version
  addressSize := l.addressSize
  segmentSelectorSize := l.segmentSelectorSize
  headerLength := l.headerLength
  minimumInstructionLength := l.minimumInstructionLength
  maximumOperationsPerInstruction := l.maximumOperationsPerInstruction
  defaultIsStmt := l.defaultIsStmt
  lineBase := l.lineBase
  lineRange := l.lineRange
  opcodeBase := l.opcodeBase
  standardOpcodeLengths := l.standardOpcodeLengths
  directoryEntryFormatCount := BitVec.ofNat 8 l.directories.format.length
  directoryEntryFormat := l.directories.columns
  directoriesCount := BitVec.ofNat 32 l.directories.rows.length
  directories := l.directories.rows.map l.directories.entry
  fileNameEntryFormatCount := BitVec.ofNat 8 l.fileNames.format.length
  fileNameEntryFormat := l.fileNames.columns
  fileNamesCount := BitVec.ofNat 32 l.fileNames.rows.length
  fileNames := l.fileNames.rows.map l.fileNames.entry

/-- The program can be written: its length has a value of its own, there
is a length for each standard opcode, the tables can be written, and the
instructions are ones under the header. -/
structure Fits (u : CompileUnit) : Prop where
  size : l.unitLength < 2 ^ 32 - 4
  opcodes : l.standardOpcodeLengths.length = l.opcodeBase.toNat - 1
  directories : l.directories.Fits u
  fileNames : l.fileNames.Fits u
  lineRange : l.lineRange ≠ 0
  operations : l.maximumOperationsPerInstruction ≠ 0
  program : ∀ i ∈ l.program, i.At (headerOf l.header) 4

end LineUnit

-- ==================================================== what the tables say

/-- The tables list these directories, and these files, each with the
number of its directory. -/
structure LineUnit.Lists (l : LineUnit) (directories : List (List U8))
    (files : List (Nat × List U8)) : Prop where
  directoryRows : List.Forall₂ (fun row path =>
    (l.directories.value row .path).map DebugData.getString = some path)
    l.directories.rows directories
  fileRows : List.Forall₂ (fun row (file : Nat × List U8) =>
    (∃ data index, l.fileNames.value row .directory_index = some data
      ∧ data.getUInt = .ok index ∧ (index.setWidth 32).toNat = file.1)
    ∧ (l.fileNames.value row .path).map DebugData.getString = some file.2
    ∧ file.1 < directories.length) l.fileNames.rows files
  compiled : directories ≠ []

/-- What the names of the files stand for, the first directory being the
one in which the unit was compiled. -/
def pathsOf (directories : List (List U8)) (files : List (Nat × List U8)) :
    List (List U8) :=
  files.map fun file =>
    fullPath (directories.headD []) (directories.getD file.1 [])
      ++ [slash] ++ file.2

-- =============================================================== a table

/-- As many values as there are words of them. -/
theorem reads_repeatDecoder {α β : Type} {decode : Decoder α}
    {word : β → List U8} {value : β → α} {items : List β}
    (h : ∀ i ∈ items, Reads decode (word i) (value i)) :
    Reads (repeatDecoder decode items.length) (items.flatMap word)
      (items.map value) := by
  induction items with
  | nil => exact Reads.pure []
  | cons i items ih =>
      obtain ⟨hi, hrest⟩ := List.forall_mem_cons.1 h
      exact hi.bind ((ih hrest).then (Reads.pure _))

/-- A number of at most five bytes. -/
theorem reads_number {e : Leb128} (he : e.size ≤ 5) :
    Reads decodeULeb128 e.bytes (ulebValue e) :=
  (takes_uleb e).reads (if_pos he)

variable {u : CompileUnit} {t : FileTable}

/-- The format of a table is read back as its columns. -/
theorem reads_fileFormat (h : t.Fits u) :
    Reads generateFileFormatInfo t.formatBytes
      (BitVec.ofNat 8 t.format.length, t.columns) := by
  have hlen : (BitVec.ofNat 8 t.format.length).toNat = t.format.length := by
    rw [BitVec.toNat_ofNat, Nat.mod_eq_of_lt h.columns]
  refine Reads.bind (v := [_]) (reads_uint8 _) ?_
  rw [hlen]
  refine Reads.then (reads_repeatDecoder fun column hcolumn => ?_)
    (Reads.pure _)
  obtain ⟨hcontent, hform⟩ := h.codes column hcolumn
  exact (reads_number hcontent).bind
    ((reads_number hform).then (Reads.pure _))

/-- A row is read column by column. -/
theorem reads_decodeFileEntry
    {columns : List (ContentEncoding × FormEncoding)}
    {row : List (List U8 × List U8)}
    (h : List.Forall₂ (fun column (value : List U8 × List U8) =>
      Encodes u (2 ^ 31) 0 column.2 value.1 value.2) columns row)
    (entry : FileEntry) :
    Reads (decodeFileEntry u columns entry) (row.flatMap Prod.fst)
      ((List.zipWith (fun column (value : List U8 × List U8) =>
        (column.1, (⟨column.2, value.2⟩ : DebugData))) columns row).foldl
          (fun entry cell => entry.assign cell.1 cell.2) entry) := by
  induction h generalizing entry with
  | nil => exact Reads.pure entry
  | @cons column value columns row hcell _ ih =>
      obtain ⟨content, form⟩ := column
      exact (@reads_decodeInfo u ⟨.AtReserved0, form, 0⟩ _ _
        hcell).bind (ih _)

/-- The rows of a table are read back as the entries that they are. -/
theorem reads_fileInformation (h : t.Fits u) :
    Reads (generateFileInformation u t.columns) t.rowBytes
      (BitVec.ofNat 32 t.rows.length, t.rows.map t.entry) := by
  have hcount : (ulebValue t.count).setWidth 32
      = BitVec.ofNat 32 t.rows.length := by
    rw [ulebValue_low, h.count]
  have hlen : (BitVec.ofNat 32 t.rows.length).toNat = t.rows.length := by
    rw [BitVec.toNat_ofNat, ← h.count, Nat.mod_eq_of_lt h.short.2]
  refine Reads.bind (reads_number h.short.1) ?_
  rw [hcount]
  show Reads (repeatDecoder (decodeFileEntry u t.columns [])
    (BitVec.ofNat 32 t.rows.length).toNat >>= _) _ _
  rw [hlen]
  exact Reads.then (reads_repeatDecoder fun row hrow =>
    reads_decodeFileEntry (h.rows row hrow) []) (Reads.pure _)

-- ================================================================ a header

/-- The header of a line program is read back. -/
theorem reads_programHeader {l : LineUnit} (h : l.Fits u) :
    Reads (parseProgramHeader u) l.headerBytes l.header := by
  have hopcodes : Reads (repeatDecoder decodeUInt8 (l.opcodeBase.toNat - 1))
      l.standardOpcodeLengths l.standardOpcodeLengths := by
    have hread := @reads_repeatDecoder U8 U8 decodeUInt8 (fun b => [b]) id
      l.standardOpcodeLengths fun b _ => reads_uint8 b
    rwa [h.opcodes, List.map_id, List.flatMap_singleton'] at hread
  refine Reads.bind (reads_word32 _) ?_
  refine Reads.bind (reads_word16 _) ?_
  refine Reads.bind (v := [_]) (reads_uint8 _) ?_
  refine Reads.bind (v := [_]) (reads_uint8 _) ?_
  refine Reads.bind (reads_word32 _) ?_
  refine Reads.bind (v := [_]) (reads_uint8 _) ?_
  refine Reads.bind (v := [_]) (reads_uint8 _) ?_
  refine Reads.bind (v := [_]) (reads_uint8 _) ?_
  refine Reads.bind (v := [_]) (reads_uint8 _) ?_
  refine Reads.bind (v := [_]) (reads_uint8 _) ?_
  refine Reads.bind (v := [_]) (reads_uint8 _) ?_
  refine Reads.bind hopcodes ?_
  refine Reads.bind (reads_fileFormat h.directories) ?_
  refine Reads.bind (reads_fileInformation h.directories) ?_
  refine Reads.bind (reads_fileFormat h.fileNames) ?_
  exact Reads.then (reads_fileInformation h.fileNames) (Reads.pure _)

-- ============================================================== the paths

/-- Another column is still found when one is erased. -/
theorem lookup_filter_ne {content key : ContentEncoding} (h : content ≠ key)
    (entry : FileEntry) :
    (entry.filter fun column => column.1 ≠ key).lookup content
      = entry.lookup content := by
  induction entry with
  | nil => rfl
  | cons column entry ih =>
      obtain ⟨other, data⟩ := column
      by_cases hother : other = key
      · rw [List.filter_cons_of_neg (by simp [hother]), ih, hother,
          List.lookup_cons, beq_false_of_ne h]
      · rw [List.filter_cons_of_pos (by simp [hother]), List.lookup_cons,
          List.lookup_cons, ih]

/-- A column that is assigned again has the later value. -/
theorem lookup_assigned (cells entry : FileEntry)
    (content : ContentEncoding) :
    (cells.foldl (fun entry cell => entry.assign cell.1 cell.2)
        entry).lookup content
      = (cells.reverse.lookup content).or (entry.lookup content) := by
  induction cells generalizing entry with
  | nil => rfl
  | cons cell cells ih =>
      obtain ⟨key, data⟩ := cell
      rw [List.foldl_cons, ih, List.reverse_cons, List.lookup_append,
        Option.or_assoc, FileEntry.assign, List.lookup_cons,
        List.lookup_cons]
      by_cases h : content = key
      · rw [h, beq_self_eq_true]
        rfl
      · rw [beq_false_of_ne h, lookup_filter_ne h]
        rfl

/-- A column of an entry is the value of the row. -/
theorem column_entry {row : List (List U8 × List U8)}
    {content : ContentEncoding} {data : DebugData}
    (h : t.value row content = some data) :
    (t.entry row).column content = .ok data := by
  have hlookup : (t.entry row).lookup content = some data := by
    rw [FileTable.entry, lookup_assigned, show (t.cells row).reverse.lookup
      content = some data from h]
    rfl
  rw [FileEntry.column, hlookup]
  rfl

/-- The column of a path is a text. -/
theorem text_entry {row : List (List U8 × List U8)} {path : List U8}
    (h : (t.value row .path).map DebugData.getString = some path) :
    ∃ data, (t.entry row).column .path = .ok data
      ∧ data.getString = path := by
  obtain ⟨data, hdata, htext⟩ := Option.map_eq_some_iff.1 h
  exact ⟨data, column_entry hdata, htext⟩

/-- The files that are opened are those that the tables name. -/
theorem generateFilePaths_eq {l : LineUnit} {directories : List (List U8)}
    {names : List (Nat × List U8)} (h : l.Lists directories names)
    (files : FileSystem) :
    generateFilePaths files l.header
      = (pathsOf directories names).mapM (SourceInfo.new files) := by
  obtain ⟨compileDirectory, others, rfl⟩ :=
    List.exists_cons_of_ne_nil h.compiled
  obtain ⟨row, rows, hfirst, hrest, hrows⟩ :=
    List.forall₂_cons_right_iff.1 h.directoryRows
  have hfull : (l.directories.rows.map l.directories.entry).mapM
      (fun directory => do
        let dirPath := (← directory.column .path).getString
        pure (fullPath compileDirectory dirPath))
      = (.ok ((compileDirectory :: others).map (fullPath compileDirectory))
        : Proc (List (List U8))) := by
    rw [Collect.mapM_eq_ok, List.forall₂_map_left_iff,
      List.forall₂_map_right_iff]
    refine h.directoryRows.imp fun row path hpath => ?_
    obtain ⟨data, hcolumn, rfl⟩ := text_entry hpath
    rw [hcolumn]
    rfl
  obtain ⟨data, hcolumn, htext⟩ := text_entry hfirst
  have hdir : l.header.directories[0]? = some (l.directories.entry row) := by
    show (l.directories.rows.map l.directories.entry)[0]? = _
    rw [hrows]
    rfl
  rw [generateFilePaths, hdir]
  show ((l.directories.entry row).column .path >>= fun data => _) = _
  rw [hcolumn, ok_bind, htext]
  show ((l.directories.rows.map l.directories.entry).mapM _ >>= _) = _
  rw [hfull, ok_bind]
  refine Collect.mapM_congr₂ ?_
  show List.Forall₂ _ (l.fileNames.rows.map l.fileNames.entry)
    (names.map _)
  rw [List.forall₂_map_left_iff, List.forall₂_map_right_iff]
  refine h.fileRows.imp fun row file hfile => ?_
  obtain ⟨⟨data, index, hdata, hindex, hnumber⟩, hname, hinside⟩ := hfile
  obtain ⟨text, hpath, hstring⟩ := text_entry hname
  have hplace : ((compileDirectory :: others).map
      (fullPath compileDirectory))[(index.setWidth 32).toNat]?
      = some (fullPath compileDirectory
        ((compileDirectory :: others).getD file.1 [])) := by
    rw [hnumber, List.getElem?_map, List.getElem?_eq_getElem hinside,
      List.getD_eq_getElem _ _ hinside]
    rfl
  simp only [column_entry hdata, ok_bind, hindex, hplace, deref_some]
  show ((l.fileNames.entry row).column .path >>= fun data => _) = _
  rw [hpath, ok_bind, hstring]
  rfl

-- ======================================================== the information

/-- What is read of a line program. -/
def LineUnit.info (l : LineUnit) (place : Nat)
    (sourceInfo : List SourceInfo) : LineNumberInfo where
  debugLineStart := place
  infoHeader := l.header
  lineMatrix := (table (headerOf l.header) l.program).map entryOf
  sourceInfo := sourceInfo

/-- The program lies between the header and the end of the unit. -/
theorem lineMatrix_eq {l : LineUnit} (h : l.Fits u) (behind : List U8) :
    ∃ m s, generateLineNumberMatrix l.header
        (programStream l.headerBytes l.program behind) = .ok (m, s)
      ∧ m.lineMatrix
        = (table (headerOf l.header) l.program).map entryOf := by
  have hpositive : ∀ b : U8, b ≠ 0 → 0 < b.toNat := fun b hb =>
    Nat.pos_of_ne_zero fun h0 => hb (BitVec.eq_of_toNat_eq h0)
  have hannounced : ∀ i ∈ l.program.map Item.known,
      i.Announced (headerOf l.header) :=
    List.forall_mem_map.2 fun i hi => (h.program i hi).announced
  have hrun := matrix_heads hannounced l.headerBytes behind
  have hstart : startOf l.header
      = machineOf (.initial (headerOf l.header)) [] := rfl
  rw [hstart, performs_run (hpositive _ h.operations)
    (hpositive _ h.lineRange) h.program [] (hpositive _ h.operations),
    ← bytes_eq_heads] at hrun
  exact ⟨_, _, hrun, rfl⟩

/-- The length of a unit, with the four bytes of the length itself. -/
theorem LineUnit.Fits.length {l : LineUnit} (h : l.Fits u) :
    (4 + BitVec.ofNat 32 l.unitLength : U32).toNat = l.bytes.length := by
  have hsize := h.size
  have hword : (word32 (BitVec.ofNat 32 l.unitLength)).length = 4 := rfl
  rw [BitVec.toNat_add, BitVec.toNat_ofNat (x := l.unitLength),
    Nat.mod_eq_of_lt (a := l.unitLength) (by omega), LineUnit.bytes,
    LineUnit.headerBytes, List.length_append, List.length_append, hword]
  show (4 + l.unitLength) % 2 ^ 32 = _
  rw [Nat.mod_eq_of_lt (by omega), LineUnit.unitLength, Nat.add_assoc]

/-- The information of a line program is what was written, if its source
files can be opened. -/
theorem lineNumberInfo_eq {l : LineUnit} (h : l.Fits u)
    {directories : List (List U8)} {names : List (Nat × List U8)}
    (hlists : l.Lists directories names) (files : FileSystem)
    {elfData behind : List U8} {place : Nat}
    (hplace : elfData.drop place = l.bytes ++ behind) :
    LineNumberInfo.new files u elfData place
      = (do
          let sourceInfo ←
            (pathsOf directories names).mapM (SourceInfo.new files)
          pure (l.info place sourceInfo)) := by
  have hbytes : elfData.drop place
      = l.headerBytes ++ (LineProgram.bytes l.program ++ behind) := by
    rw [hplace, LineUnit.bytes, List.append_assoc]
  have hword := reads_word32 (BitVec.ofNat 32 l.unitLength)
    (.unbounded (some (elfData.drop place)))
    (l.fieldBytes ++ (LineProgram.bytes l.program ++ behind))
    (hbytes.trans (List.append_assoc ..))
  obtain ⟨m, s, hmatrix, hrows⟩ := lineMatrix_eq h behind
  have hstream : Cursor.skip l.headerBytes.length
      (⟨some (elfData.drop place), 0, (4 + BitVec.ofNat 32
        l.unitLength : U32).toNat⟩ : DataStream)
      = programStream l.headerBytes l.program behind := by
    rw [h.length, hbytes]
    simp [LineUnit.bytes, Cursor.skip, DataStream.skip, programStream]
  have hheader := reads_programHeader h
    ⟨some (elfData.drop place), 0,
      (4 + BitVec.ofNat 32 l.unitLength : U32).toNat⟩ _ hbytes
  rw [LineNumberInfo.new]
  show (decodeUInt32.run _ >>= fun _ => _) = _
  rw [hword, ok_bind]
  show ((parseProgramHeader u).run _ >>= fun _ => _) = _
  rw [hheader, ok_bind, hstream]
  show (generateFilePaths files l.header >>= fun _ => _) = _
  rw [generateFilePaths_eq hlists]
  congr 1
  funext sourceInfo
  rw [hmatrix, ok_bind, LineUnit.info, ← hrows]

end T89Emu.Dwarf
