/-
The units of a program are read back as they were written.

A `UnitSource` is a unit as a compiler has it: a tree, the abbreviations
it is written with, and a line program with the files it refers to.
`Written` says that the sections of a file hold units, one behind the
other, each with the table of abbreviations that its header points to;
the line programs lie in the order of the units.

Where a unit lies follows from the units in front of it (`placed`). A
round of the constructor's loop makes of the bytes there what was written
(`parseUnit_eq`), and moves its pointers on to the next unit, so that all
units follow by induction (`unitLoop_placed`). What can still go wrong is
not in the bytes of the sections: a source file that is not there, or an
attribute of a scope that is no number and no expression
(`generateScopes_ok_iff`).
-/
import T89Emu.Dwarf.Proofs.FileTables

namespace T89Emu.Dwarf

open Cpp Decode LineProgram

-- ======================================================= what is written

/-- A unit: the fields of its header, its abbreviations, the tree, and the
line program with the directories and the files that it lists. -/
structure UnitSource where
  version : U16
  unitType : U8
  debugAbbrevOffset : U32
  decls : List Abbreviation.Decl
  root : Die
  line : LineUnit
  directories : List (List U8)
  names : List (Nat × List U8)

namespace UnitSource

variable (x : UnitSource)

/-- The header of the unit; an address has four bytes. -/
def header : CompileUnitHeader where
  unitLength := BitVec.ofNat 32 (8 + x.root.bytes.length)
  version := x.version
  unitType := x.unitType
  addressSize := 4
  debugAbbrevOffset := x.debugAbbrevOffset

/-- The unit in .debug_info. -/
def infoBytes : List U8 :=
  word32 x.header.unitLength ++ (word16 x.version
    ++ (x.unitType :: 4 :: word32 x.debugAbbrevOffset)) ++ x.root.bytes

/-- The paths of its source files. -/
def paths : List (List U8) := pathsOf x.directories x.names

/-- What the entries are decoded with, the first one at an offset. -/
def compileUnit (d : DebugSections) (streamOffset : Nat) :
    CompileUnit where
  addressSize := 4
  abbrevTable := inserted ⟨[]⟩ x.decls
  debugStr := ⟨d.elfData, d.debugStrStart⟩
  debugLineStr := ⟨d.elfData, d.debugLineStrStart⟩
  streamOffset := streamOffset

/-- The unit can be written, and refers to its abbreviations. -/
structure Fits (d : DebugSections) : Prop where
  decls : ∀ decl ∈ x.decls, Decl.Sound decl
  root : x.root.Fits (x.compileUnit d 0) (2 ^ 31)
  size : x.root.bytes.length < 2 ^ 32 - 12
  line : x.line.Fits (x.compileUnit d 0)
  lists : x.line.Lists x.directories x.names
  abbrevs : Abbreviation.bytes x.decls
    <+: d.elfData.drop (d.debugAbbrevStart + x.debugAbbrevOffset.toNat)

end UnitSource

/-- The sections hold the units. -/
structure Written (d : DebugSections) (units : List UnitSource) :
    Prop where
  debugInfo : units.flatMap UnitSource.infoBytes
    <+: d.elfData.drop d.debugInfoStart
  debugInfoSize : d.debugInfoSize.toNat
    = (units.flatMap UnitSource.infoBytes).length
  debugLine : units.flatMap (fun x => x.line.bytes)
    <+: d.elfData.drop d.debugLineStart
  fits : ∀ x ∈ units, x.Fits d

/-- A unit with its place in .debug_info, and that of its line program in
.debug_line. -/
structure PlacedUnit where
  source : UnitSource
  info : Nat
  line : Nat

/-- Units that lie one behind the other. -/
def placed : Nat → Nat → List UnitSource → List PlacedUnit
  | _, _, [] => []
  | info, line, x :: units => ⟨x, info, line⟩
      :: placed (info + x.infoBytes.length) (line + x.line.bytes.length)
        units

/-- The tree of a unit, with the offsets that the parser gives it. -/
def PlacedUnit.root (p : PlacedUnit) : DebugInfoEntry :=
  p.source.root.entry none (p.info + headerLen)

-- ================================================================= scopes

/-- The value is a number, where there is one. -/
def Numeric (data : Option DebugData) : Prop :=
  ∀ value, data = some value → ∃ n, value.getUInt = .ok n

/-- The location of a variable is an expression, where it has one. -/
def DebugInfoEntry.Located (e : DebugInfoEntry) : Prop :=
  ∀ locExpr, e.getAttribute .location = some locExpr →
    locExpr.form = .exprloc

mutual

/-- The bounds of the entry and of the scopes below it are numbers, and
the locations of the variables expressions. -/
def DebugInfoEntry.Scoped : DebugInfoEntry → Prop
  | .mk _ _ _ _ attributes children =>
      Numeric (attributes.lookup .low_pc)
        ∧ Numeric (attributes.lookup .high_pc)
        ∧ DebugInfoEntry.AllScoped children

/-- The same of the children of an entry. -/
def DebugInfoEntry.AllScoped : List DebugInfoEntry → Prop
  | [] => True
  | child :: children =>
      (if child.isVariable then child.Located
        else if child.isScope then child.Scoped else True)
      ∧ DebugInfoEntry.AllScoped children

end

/-- A bound that is not there is not read. -/
theorem optionalUInt_ok_iff (data : Option DebugData) (missing : U32)
    (present : U64 → U32) :
    (∃ n, Scope.optionalUInt data missing present = .ok n)
      ↔ Numeric data := by
  cases data with
  | none => exact iff_of_true ⟨missing, rfl⟩ nofun
  | some value =>
      refine (exists_bind_total fun n => ⟨_, rfl⟩).trans ?_
      simp [Numeric]

/-- Both bounds are read, the upper one relative to the lower. -/
theorem bounds_ok_iff (attributes : List (AttributeEncoding × DebugData)) :
    (∃ b, Scope.bounds attributes = .ok b)
      ↔ Numeric (attributes.lookup .low_pc)
        ∧ Numeric (attributes.lookup .high_pc) := by
  refine (exists_bind_iff fun lowPc _ => ?_).trans
    (and_congr_left' (optionalUInt_ok_iff ..))
  exact (exists_bind_total fun highPc => ⟨_, rfl⟩).trans
    (optionalUInt_ok_iff ..)

/-- A location list is no expression, and ends the program. -/
theorem variable_ok_iff (parent e : DebugInfoEntry) :
    (∃ v, Variable.new parent e = .ok v) ↔ e.Located := by
  rw [Variable.new, DebugInfoEntry.Located]
  cases e.getAttribute .location with
  | none => exact iff_of_true ⟨_, rfl⟩ nofun
  | some locExpr =>
      by_cases h : locExpr.form = .exprloc
      · simp [h]
      · simp [h]

mutual

/-- A tree has scopes exactly if their bounds are numbers and the
locations of their variables expressions. -/
theorem generateScopes_ok_iff : ∀ e : DebugInfoEntry,
    (∃ scope, generateScopes e = .ok scope) ↔ e.Scoped
  | .mk parent code offset kind attributes children => by
    rw [generateScopes, DebugInfoEntry.Scoped, ← and_assoc,
      ← bounds_ok_iff]
    exact exists_bind_iff fun b _ =>
      (exists_bind_total fun r => ⟨_, rfl⟩).trans
        (generateMembers_ok_iff _ children)

/-- An entry below is a variable, a scope, or left out. -/
theorem generateMembers_ok_iff (node : DebugInfoEntry) :
    ∀ children : List DebugInfoEntry,
    (∃ r, generateMembers node children = .ok r)
      ↔ DebugInfoEntry.AllScoped children
  | [] => by
    rw [generateMembers, DebugInfoEntry.AllScoped]
    exact iff_of_true ⟨_, rfl⟩ trivial
  | child :: children => by
    have hrest := generateMembers_ok_iff node children
    rw [generateMembers, DebugInfoEntry.AllScoped, ← hrest]
    -- the rest of the members is read in each of the three cases
    split
    · exact (exists_bind_iff fun v _ =>
        exists_bind_total fun r => ⟨_, rfl⟩).trans
          (and_congr_left' (variable_ok_iff node child))
    · split
      · exact (exists_bind_iff fun scope _ =>
          exists_bind_total fun r => ⟨_, rfl⟩).trans
            (and_congr_left' (generateScopes_ok_iff child))
      · rw [true_and]

end

-- ================================================================ one unit

variable {x : UnitSource} {d : DebugSections}

/-- Where the entries lie does not matter for what they are. -/
theorem Encodes.moved {u : CompileUnit} {limit : Nat} {special : U64}
    {form : FormEncoding} {word value : List U8}
    (h : Encodes u limit special form word value) (streamOffset : Nat) :
    Encodes { u with streamOffset } limit special form word value := by
  cases h with
  | fixed size => exact .fixed size
  | block isBlock short length => exact .block isBlock short length
  | block1 length => exact .block1 length
  | block2 length => exact .block2 length
  | block4 length => exact .block4 length
  | sdata short => exact .sdata short
  | udata uleb short => exact .udata uleb short
  | strp low inside designates => exact .strp low inside designates
  | line_strp low inside designates => exact .line_strp low inside designates
  | string nonzero => exact .string nonzero
  | implicit_const => exact .implicit_const

/-- So a tree fits at any offset, by induction on how it fits. -/
theorem Die.Fits.moved {u : CompileUnit} {limit : Nat} {die : Die}
    (h : die.Fits u limit) (streamOffset : Nat) :
    die.Fits { u with streamOffset } limit := by
  induction h with
  | mk short nonzero found encoded distinct leaf closed zero _ ih =>
      exact .mk short nonzero found
        (encoded.imp fun _ _ h => h.moved streamOffset) distinct leaf closed
        zero ih

/-- And so do the tables of a line program. -/
theorem FileTable.Fits.moved {u : CompileUnit} {t : FileTable}
    (h : t.Fits u) (streamOffset : Nat) :
    t.Fits { u with streamOffset } where
  columns := h.columns
  codes := h.codes
  short := h.short
  count := h.count
  rows := fun row hrow =>
    (h.rows row hrow).imp fun _ _ hcell => hcell.moved streamOffset

/-- With its tables, the line program does. -/
theorem LineUnit.Fits.moved {u : CompileUnit} {l : LineUnit}
    (h : l.Fits u) (streamOffset : Nat) :
    l.Fits { u with streamOffset } where
  size := h.size
  opcodes := h.opcodes
  directories := h.directories.moved streamOffset
  fileNames := h.fileNames.moved streamOffset
  lineRange := h.lineRange
  operations := h.operations
  program := h.program

/-- A unit that can be written can be so anywhere. -/
theorem UnitSource.Fits.at (h : x.Fits d) (streamOffset : Nat) :
    x.root.Fits (x.compileUnit d streamOffset) (2 ^ 31)
      ∧ x.line.Fits (x.compileUnit d streamOffset) :=
  ⟨h.root.moved streamOffset, h.line.moved streamOffset⟩

/-- The header of a unit, field by field. -/
theorem reads_unitHeader (x : UnitSource) :
    Reads decodeUnitHeader (word32 x.header.unitLength ++ (word16 x.version
      ++ (x.unitType :: 4 :: word32 x.debugAbbrevOffset))) x.header :=
  (reads_word32 _).bind ((reads_word16 _).bind
    (Reads.bind (v := [_]) (reads_uint8 _)
      (Reads.bind (v := [_]) (reads_uint8 _)
        ((reads_word32 _).then (Reads.pure _)))))

/-- A table of abbreviations that is found where the header points to. -/
theorem abbrevTable_eq {decls : List Abbreviation.Decl}
    (h : ∀ decl ∈ decls, Decl.Sound decl) {bytes : List U8}
    (hbytes : Abbreviation.bytes decls <+: bytes) :
    AbbrevTable.new bytes = .ok (inserted ⟨[]⟩ decls) := by
  obtain ⟨behind, rfl⟩ := hbytes
  have hfuel : decls.length
      < (Abbreviation.bytes decls ++ behind).length + 1 := by
    have hlen := Abbreviation.length_lt decls
    rw [List.length_append]
    omega
  have hrun := abbrevs_run h hfuel ⟨[]⟩
    (s := .unbounded (some (Abbreviation.bytes decls ++ behind))) rfl
  rw [AbbrevTable.new, hrun]
  rfl

/-- A unit is its header and its tree. -/
theorem length_infoBytes (x : UnitSource) :
    x.infoBytes.length = headerLen + x.root.bytes.length := by
  rw [UnitSource.infoBytes, List.length_append]
  rfl

/-- The length of a unit, with the four bytes of the length itself. -/
theorem toNat_unitLength (h : x.Fits d) :
    (4 + x.header.unitLength).toNat = x.infoBytes.length := by
  have hsize := h.size
  rw [length_infoBytes, UnitSource.header, BitVec.toNat_add,
    BitVec.toNat_ofNat (x := 8 + _), Nat.mod_eq_of_lt (a := 8 + _) (by omega)]
  show (4 + (8 + x.root.bytes.length)) % 2 ^ 32 = 12 + x.root.bytes.length
  omega

/-- A unit is opened: its abbreviations, and the stream of its entries. -/
theorem openUnit_eq (h : x.Fits d) {place : Nat} {behind : List U8}
    (hplace : d.elfData.drop place = x.infoBytes ++ behind) :
    openUnit d place = .ok (4 + x.header.unitLength,
      x.compileUnit d (place + headerLen - d.debugInfoStart),
      unitStream x.root behind) := by
  have hheader := reads_unitHeader x
    (.unbounded (some (d.elfData.drop place))) (x.root.bytes ++ behind)
    (hplace.trans (List.append_assoc ..))
  have hentries : d.elfData.drop (place + headerLen)
      = x.root.bytes ++ behind := by
    rw [← List.drop_drop, hplace, UnitSource.infoBytes, List.append_assoc]
    exact List.drop_left' rfl
  -- the stream of the entries is as long as the unit without its header
  have hlen : ((4 + x.header.unitLength).setWidth 64 - 12#64).toNat
      = x.root.bytes.length := by
    have hunit := toNat_unitLength h
    have hlt := (4 + x.header.unitLength).isLt
    rw [length_infoBytes] at hunit
    rw [BitVec.toNat_sub, BitVec.toNat_setWidth, hunit]
    simp only [headerLen, BitVec.toNat_ofNat] at hunit ⊢
    omega
  have hnew : CompileUnitHeader.new (d.elfData.drop place)
      = .ok x.header := by
    rw [CompileUnitHeader.new]
    show (decodeUnitHeader.run _ >>= fun _ => _) = _
    rw [hheader]
    rfl
  have habbrevs : AbbrevTable.new (d.elfData.drop (d.debugAbbrevStart
      + x.header.debugAbbrevOffset.toNat)) = .ok (inserted ⟨[]⟩ x.decls) :=
    abbrevTable_eq h.decls h.abbrevs
  simp only [openUnit, hnew, ok_bind, habbrevs, hentries, hlen]
  rfl

/-- The tree is rebuilt of its entries. -/
theorem generateDebugInfo_eq (h : x.Fits d) (streamOffset : Nat)
    (behind : List U8) :
    ∃ r s, (x.compileUnit d streamOffset).generateDebugInfo none
        (unitStream x.root behind) = .ok (r, s)
      ∧ r.kept = some (x.root.entry none streamOffset) := by
  have hfuel : x.root.bytes.length
      < (unitStream x.root behind).rest.length + 1 := by
    show _ < (x.root.bytes ++ behind).length + 1
    rw [List.length_append]
    omega
  obtain ⟨r, hrun, hr⟩ := reads_die x.root (h.at streamOffset).1 hfuel none
    (s := unitStream x.root behind) rfl (by simp [unitStream])
  exact ⟨r, _, hrun, hr.kept⟩

/-- A unit is built of what lies at its place and at that of its line
program. -/
def PlacedUnit.parsed (p : PlacedUnit) (files : FileSystem)
    (d : DebugSections) : Proc ParsedUnit := do
  let sourceInfo ← p.source.paths.mapM (SourceInfo.new files)
  let rootScope ← generateScopes p.root
  pure ⟨⟨4 + p.source.header.unitLength,
    p.source.line.info (d.debugLineStart + p.line) sourceInfo,
    some p.root⟩, rootScope⟩

/-- One round of the constructor's loop. -/
theorem parseUnit_eq {p : PlacedUnit} (h : p.source.Fits d)
    (files : FileSystem) {behind behindLine : List U8}
    (hinfo : d.elfData.drop (d.debugInfoStart + p.info)
      = p.source.infoBytes ++ behind)
    (hline : d.elfData.drop (d.debugLineStart + p.line)
      = p.source.line.bytes ++ behindLine) :
    parseUnit files d (d.debugInfoStart + p.info)
      (d.debugLineStart + p.line) = p.parsed files d := by
  have hoffset : d.debugInfoStart + p.info + headerLen - d.debugInfoStart
      = p.info + headerLen := by omega
  have hopen := openUnit_eq h hinfo
  rw [hoffset] at hopen
  have hlines := lineNumberInfo_eq (h.at (p.info + headerLen)).2 h.lists
    files hline
  obtain ⟨r, s, hgenerate, hkept⟩ :=
    generateDebugInfo_eq h (p.info + headerLen) behind
  -- the line program is read before the tree is
  have hbuilt : Unit.new files d (d.debugInfoStart + p.info)
      (d.debugLineStart + p.line) = (do
        let sourceInfo ← p.source.paths.mapM (SourceInfo.new files)
        pure ⟨4 + p.source.header.unitLength,
          p.source.line.info (d.debugLineStart + p.line) sourceInfo,
          some p.root⟩) := by
    simp only [Unit.new, hopen, ok_bind, hlines, bind_assoc, pure_bind,
      hgenerate, hkept]
    rfl
  rw [parseUnit, hbuilt, bind_assoc]
  rfl

-- ============================================================= all the units

/-- What is not in the sections: the source files are there, and the tree
has scopes. -/
def PlacedUnit.Complete (p : PlacedUnit) (files : FileSystem) : Prop :=
  (∀ path ∈ p.source.paths, files path ≠ none) ∧ p.root.Scoped

/-- The unit is what was written: its tree with its scopes, its line
program with the rows of the state machine, and its source files. -/
structure ReadBack (files : FileSystem) (d : DebugSections)
    (p : PlacedUnit) (u : ParsedUnit) : Prop where
  root : u.unit.root = some p.root
  rootScope : generateScopes p.root = .ok u.rootScope
  place : u.unit.debugLine.debugLineStart = d.debugLineStart + p.line
  header : u.unit.debugLine.infoHeader = p.source.line.header
  rows : List.Forall₂ IsRow u.unit.debugLine.lineMatrix
    (table (headerOf p.source.line.header) p.source.line.program)
  paths : u.unit.debugLine.sourceInfo.map (·.path) = p.source.paths
  lines : ReadFrom files u.unit.debugLine.sourceInfo

variable {files : FileSystem} {p : PlacedUnit} {u : ParsedUnit}

/-- What a round needs besides the bytes. -/
theorem parsed_ok_iff (p : PlacedUnit) (files : FileSystem)
    (d : DebugSections) :
    (∃ u, p.parsed files d = .ok u) ↔ p.Complete files := by
  refine (exists_bind_iff fun sourceInfo _ =>
    exists_bind_total fun scope => ⟨_, rfl⟩).trans ?_
  rw [Collect.exists_mapM, generateScopes_ok_iff, PlacedUnit.Complete]
  simp only [sourceInfo_ok_iff]

/-- What a round leaves is the unit. -/
theorem readBack_of_parsed (h : p.source.Fits d)
    (hu : p.parsed files d = .ok u) : ReadBack files d p u := by
  obtain ⟨sourceInfo, hsources, hu⟩ := bind_eq_ok.1 hu
  obtain ⟨rootScope, hscope, hu⟩ := bind_eq_ok.1 hu
  obtain rfl := Except.ok.inj hu
  have hpairs := Collect.mapM_eq_ok.1 hsources
  refine ⟨rfl, hscope, rfl, rfl, ?_, ?_, ?_⟩
  · -- the registers stay small enough for the members of a row
    have hnone : ∀ row ∈ ([] : List Registers),
        row.Bounded (2 ^ (7 * 4)) := by simp
    have hbounded := run_bounded (show 0 < 4 by omega) h.line.program
      (r := .initial (headerOf p.source.line.header))
      (initial_bounded (by omega)) hnone
    show List.Forall₂ IsRow ((table _ _).map entryOf) _
    rw [List.forall₂_map_left_iff, List.forall₂_same]
    exact fun row hrow => isRow_entryOf (hbounded row hrow)
  · have hpaths : List.Forall₂ (· = ·) p.source.paths
        (sourceInfo.map (·.path)) := by
      rw [List.forall₂_map_right_iff]
      exact hpairs.imp fun _ _ hs => (path_of_sourceInfo hs).symm
    rw [List.forall₂_eq_eq_eq] at hpaths
    exact hpaths.symm
  · intro s hs
    obtain ⟨_, -, hread⟩ := Lockstep.exists_partner_right hpairs hs
    exact sourceInfo_read hread

/-- The pointers move on to the next unit. -/
theorem parsed_lengths (h : p.source.Fits d)
    (hu : p.parsed files d = .ok u) :
    u.unit.getDebugInfoLength = p.source.infoBytes.length
      ∧ u.unit.getDebugLineLength = p.source.line.bytes.length := by
  obtain ⟨sourceInfo, -, hu⟩ := bind_eq_ok.1 hu
  obtain ⟨rootScope, -, hu⟩ := bind_eq_ok.1 hu
  obtain rfl := Except.ok.inj hu
  exact ⟨toNat_unitLength h, h.line.length⟩

/-- The loop makes a round for each unit. -/
theorem unitLoop_placed {units : List UnitSource}
    (hfits : ∀ x ∈ units, x.Fits d) (info line : Nat) {fuel : Nat}
    (hfuel : units.length < fuel) {behind behindLine : List U8}
    (hinfo : d.elfData.drop (d.debugInfoStart + info)
      = units.flatMap UnitSource.infoBytes ++ behind)
    (hline : d.elfData.drop (d.debugLineStart + line)
      = units.flatMap (fun x => x.line.bytes) ++ behindLine)
    (hend : d.debugInfoSize.toNat
      = info + (units.flatMap UnitSource.infoBytes).length)
    {parsed : List ParsedUnit} :
    unitLoop files d fuel (d.debugInfoStart + info)
        (d.debugLineStart + line) = .ok parsed
      ↔ List.Forall₂ (fun p u => p.parsed files d = .ok u)
          (placed info line units) parsed := by
  induction units generalizing info line fuel parsed with
  | nil =>
      obtain ⟨fuel, rfl⟩ : ∃ k, fuel = k + 1 := ⟨fuel - 1, by omega⟩
      have hstop : d.debugInfoStart + d.debugInfoSize.toNat
          ≤ d.debugInfoStart + info := by
        rw [hend]
        exact Nat.le_refl _
      rw [unitLoop, if_pos hstop, placed, List.forall₂_nil_left_iff]
      exact ⟨fun h => (Except.ok.inj h).symm, fun h => congrArg _ h.symm⟩
  | cons x units ih =>
      obtain ⟨fuel, rfl⟩ : ∃ k, fuel = k + 1 := ⟨fuel - 1, by omega⟩
      obtain ⟨hx, hrest⟩ := List.forall_mem_cons.1 hfits
      rw [List.length_cons] at hfuel
      rw [List.flatMap_cons, List.append_assoc] at hinfo hline
      rw [List.flatMap_cons, List.length_append] at hend
      have hmore : d.debugInfoStart + info
          < d.debugInfoStart + d.debugInfoSize.toNat := by
        have hlen := length_infoBytes x
        have hheader : headerLen = 12 := rfl
        omega
      have hunit := parseUnit_eq (p := ⟨x, info, line⟩) hx files hinfo hline
      have hloop := fun rest => @ih hrest (info + x.infoBytes.length)
        (line + x.line.bytes.length) fuel (by omega)
        (by rw [← Nat.add_assoc, ← List.drop_drop, hinfo, List.drop_left])
        (by rw [← Nat.add_assoc, ← List.drop_drop, hline, List.drop_left])
        (by omega) rest
      rw [unitLoop_unit hmore, placed, List.forall₂_cons_left_iff]
      -- where the next round begins is known once this one has succeeded
      constructor
      · rintro ⟨u, rest, hu, hunits, rfl⟩
        rw [hunit] at hu
        obtain ⟨hlen, hlenLine⟩ := parsed_lengths hx hu
        rw [hlen, hlenLine, Nat.add_assoc, Nat.add_assoc] at hunits
        exact ⟨u, rest, hu, (hloop rest).1 hunits, rfl⟩
      · rintro ⟨u, rest, hu, hunits, rfl⟩
        obtain ⟨hlen, hlenLine⟩ := parsed_lengths hx hu
        refine ⟨u, rest, hunit.trans hu, ?_, rfl⟩
        rw [hlen, hlenLine, Nat.add_assoc, Nat.add_assoc]
        exact (hloop rest).2 hunits

/-- A placed unit is one of the units. -/
theorem mem_placed {units : List UnitSource} {info line : Nat}
    (hp : p ∈ placed info line units) : p.source ∈ units := by
  induction units generalizing info line with
  | nil => cases hp
  | cons x units ih =>
      rcases List.mem_cons.1 hp with rfl | hp
      · exact List.mem_cons_self
      · exact List.mem_cons_of_mem x (ih hp)

/-- Units are read back from the sections as they were written, exactly if
their source files are there and their trees have scopes. -/
theorem units_read_back {units : List UnitSource} (h : Written d units)
    (files : FileSystem) {fuel : Nat} (hfuel : units.length < fuel) :
    ((∃ parsed, unitLoop files d fuel d.debugInfoStart d.debugLineStart
          = .ok parsed)
        ↔ ∀ p ∈ placed 0 0 units, p.Complete files)
      ∧ ∀ parsed, unitLoop files d fuel d.debugInfoStart d.debugLineStart
          = .ok parsed →
        List.Forall₂ (ReadBack files d) (placed 0 0 units) parsed := by
  obtain ⟨behind, hinfo⟩ := h.debugInfo
  obtain ⟨behindLine, hline⟩ := h.debugLine
  have hloop : ∀ parsed, unitLoop files d fuel d.debugInfoStart
      d.debugLineStart = .ok parsed
      ↔ List.Forall₂ (fun p u => p.parsed files d = .ok u)
        (placed 0 0 units) parsed := fun parsed =>
    unitLoop_placed h.fits 0 0 hfuel hinfo.symm hline.symm
      (by rw [h.debugInfoSize, Nat.zero_add])
  constructor
  · simp only [hloop, ← Collect.mapM_eq_ok, Collect.exists_mapM,
      parsed_ok_iff]
  · intro parsed hparsed
    have hpairs := (hloop parsed).1 hparsed
    refine ((List.forall₂_and_left _ _).2 ⟨fun p hp => hp, hpairs⟩).imp ?_
    intro p u ⟨hp, hu⟩
    exact readBack_of_parsed (h.fits _ (mem_placed hp)) hu

/-- The specification of a name does not end the list. -/
theorem name_notEnd :
    ¬ ((Leb128.single 3).unsigned = 0 ∧ (Leb128.single 8).unsigned = 0) := by
  decide

/-- Its code does not end the table. -/
theorem named_nonzero : (Leb128.single 1).unsigned ≠ 0 := by decide

/-- A unit with a name, and nothing in it. -/
def namedDecl : Abbreviation.Decl where
  code := .single 1
  tag := .single 0x11
  children := false
  specs := [⟨.single 3, .single 8, .single 0, name_notEnd⟩]
  nonzero := named_nonzero

/-- A table with one directory. -/
def rootDirectory : FileTable where
  format := [(.single 1, .single 8)]
  count := .single 1
  rows := [[([slash, 0], [slash])]]

/-- Names, and directories as bytes. -/
def nameFormat : List (Leb128 × Leb128) :=
  [(.single 1, .single 8), (.single 2, .single 11)]

/-- A table with one file, whose name is a letter. -/
def namedFile (letter : U8) : FileTable where
  format := nameFormat
  count := .single 1
  rows := [[([letter, 0], [letter]), ([0], [0])]]

/-- Its line program. -/
def namedLine (letter : U8) : LineUnit where
  version := 5
  addressSize := 4
  segmentSelectorSize := 0
  headerLength := 0
  minimumInstructionLength := 1
  maximumOperationsPerInstruction := 1
  defaultIsStmt := 1
  lineBase := 0xf6
  lineRange := 0xf2
  opcodeBase := 13
  standardOpcodeLengths := [0, 1, 1, 1, 1, 0, 0, 0, 1, 0, 0, 1]
  directories := rootDirectory
  fileNames := namedFile letter
  program := smallProgram

/-- The unit whose source file is the letter. -/
def namedSource (letter : U8) : UnitSource where
  version := 5
  unitType := 1
  debugAbbrevOffset := 0
  decls := [namedDecl]
  root := .mk (.single 1) (abbrevOf namedDecl) [([letter, 0], [letter])] []
    (.single 0)
  line := namedLine letter
  directories := [[slash]]
  names := [(0, [letter])]

/-- Two of them. -/
def twoSources : List UnitSource := [namedSource 0x61, namedSource 0x62]

/-- Their sections, one behind the other. -/
def twoUnits : DebugSections where
  elfData := twoSources.flatMap UnitSource.infoBytes
    ++ (Abbreviation.bytes [namedDecl]
      ++ twoSources.flatMap fun x => x.line.bytes)
  debugInfoStart := 0
  debugInfoSize := 30
  debugAbbrevStart := 30
  debugStrStart := 0
  debugLineStrStart := 0
  debugLineStart := 38
  debugFrameStart := 0
  debugFrameSize := 0

/-- A letter, as a string in place. -/
theorem string_encoded (u : CompileUnit) (special : U64) {letter : U8}
    (h : letter ≠ 0) :
    Encodes u (2 ^ 31) special .string [letter, 0] [letter] :=
  @Encodes.string u _ special [letter] (by simpa using h)

/-- The table of directories of the example fits. -/
theorem rootDirectory_fits (u : CompileUnit) : rootDirectory.Fits u where
  columns := by decide
  codes := by decide
  short := ⟨by decide, by decide⟩
  count := by decide
  rows := by
    intro row hrow
    rw [List.mem_singleton.1 hrow]
    exact .cons (string_encoded u 0 (by decide)) .nil

/-- So does that of its files. -/
theorem namedFile_fits (u : CompileUnit) {letter : U8} (h : letter ≠ 0) :
    (namedFile letter).Fits u where
  columns := by
    show nameFormat.length < 2 ^ 8
    decide
  codes := by
    show ∀ column ∈ nameFormat, column.1.size ≤ 5 ∧ column.2.size ≤ 5
    decide
  short := by
    show Fits32 (.single 1)
    exact ⟨by decide, by decide⟩
  count := by
    show (Leb128.single 1).unsigned = 1
    decide
  rows := by
    intro row hrow
    rw [List.mem_singleton.1 hrow]
    exact .cons (string_encoded u 0 h) (.cons (.fixed rfl) .nil)

/-- With both tables, the line program does. -/
theorem namedLine_fits (u : CompileUnit) {letter : U8} (h : letter ≠ 0) :
    (namedLine letter).Fits u where
  size := by
    show 63 < 2 ^ 32 - 4
    decide
  opcodes := rfl
  directories := rootDirectory_fits u
  fileNames := namedFile_fits u h
  lineRange := by
    show (0xf2 : U8) ≠ 0
    decide
  operations := by
    show (1 : U8) ≠ 0
    decide
  program := by
    show ∀ i ∈ smallProgram, i.At (headerOf smallHeader) 4
    decide

/-- And so the unit does. -/
theorem namedSource_fits {letter : U8} (h : letter ≠ 0) :
    (namedSource letter).Fits twoUnits where
  decls := by
    intro decl hdecl
    rw [List.mem_singleton.1 hdecl]
    refine ⟨by decide, ⟨by decide, by decide⟩, fun a ha => ?_⟩
    rw [List.mem_singleton.1 ha]
    exact ⟨⟨by decide, by decide⟩, ⟨by decide, by decide⟩,
      fun hconst => absurd hconst (by decide)⟩
  root := by
    refine .mk (by decide) (by decide) rfl ?_ (by decide) (fun _ => rfl)
      (by decide) (by decide) (by simp)
    exact .cons (string_encoded _ _ h) .nil
  size := by show 3 < 2 ^ 32 - 12; decide
  line := namedLine_fits _ h
  lists := by
    have hname : ((namedFile letter).value [([letter, 0], [letter]),
        ([0], [0])] .path).map DebugData.getString = some [letter] := by
      show some ([letter].takeWhile (· ≠ 0#8)) = some [letter]
      simp [show letter ≠ 0#8 from h]
    exact ⟨.cons rfl .nil,
      .cons ⟨⟨_, _, rfl, rfl, rfl⟩, hname, Nat.zero_lt_one⟩ .nil,
      List.cons_ne_nil _ _⟩
  abbrevs := ⟨_, rfl⟩

/-- The sections hold them. -/
theorem twoSources_written : Written twoUnits twoSources where
  debugInfo := ⟨_, rfl⟩
  debugInfoSize := rfl
  debugLine := ⟨[], by decide +kernel⟩
  fits := by
    intro x hx
    rcases List.mem_cons.1 hx with rfl | hx
    · exact namedSource_fits (by decide)
    · rw [List.mem_singleton.1 hx]
      exact namedSource_fits (by decide)

/-- Two units whose source files are there. -/
theorem two_units_read_back : ∃ parsed,
    unitLoop (fun _ => some []) twoUnits 3 0 38 = .ok parsed
      ∧ List.Forall₂ (ReadBack (fun _ => some []) twoUnits)
        (placed 0 0 twoSources) parsed := by
  obtain ⟨hread, hback⟩ := units_read_back twoSources_written
    (fun _ => some []) (show 2 < 3 by decide)
  -- the file system has every file, and the trees have no bounds
  have hcomplete : ∀ p ∈ placed 0 0 twoSources,
      p.Complete fun _ => some [] := by
    intro p hp
    have hroot : ∃ letter offset, p.root = (namedSource letter).root.entry
        none offset := by
      rcases List.mem_cons.1 hp with rfl | hp
      · exact ⟨_, _, rfl⟩
      · rw [List.mem_singleton.1 hp]
        exact ⟨_, _, rfl⟩
    obtain ⟨letter, offset, hroot⟩ := hroot
    rw [PlacedUnit.Complete, hroot]
    exact ⟨fun _ _ => nofun, nofun, nofun, trivial⟩
  obtain ⟨parsed, hparsed⟩ := hread.2 hcomplete
  exact ⟨parsed, hparsed, hback parsed hparsed⟩

end T89Emu.Dwarf
