/-
The source files of a program.

A unit has a list of source files, each with the lines that were read
from its path (`sources_read`). The parser puts these lists together, a
path once. What is dropped is listed already, because a path was read
with the same lines each time: the list of the parser has exactly the
files of the units (`mem_getSourceInfo`).
-/
import T89Emu.Dwarf.Proofs.LineTables
import T89Emu.Lib.Collect
import T89Emu.Lib.Distinct

namespace T89Emu.Dwarf

open Cpp Collect

-- ================================================ statement vocabulary

/-- The source files of all units. -/
def DwarfParser.sources (p : DwarfParser) : List SourceInfo :=
  p.compileUnits.flatMap fun cu => cu.unit.debugLine.sourceInfo

/-- They have the lines of the files at their paths. -/
def ReadFrom (files : FileSystem) (sources : List SourceInfo) : Prop :=
  ∀ s ∈ sources, files s.path = some s.lines

-- ============================================================== reading

variable {files : FileSystem}

/-- The lines of a source are those of the file with its path. -/
theorem sourceInfo_read {path : List U8} {s : SourceInfo}
    (h : SourceInfo.new files path = .ok s) :
    files s.path = some s.lines := by
  unfold SourceInfo.new at h
  split at h
  · next lines hopen =>
    cases h
    exact hopen
  · cases h

/-- The path is the one that was asked for. -/
theorem path_of_sourceInfo {path : List U8} {s : SourceInfo}
    (h : SourceInfo.new files path = .ok s) : s.path = path := by
  unfold SourceInfo.new at h
  split at h
  · exact (congrArg SourceInfo.path (Except.ok.inj h)).symm
  · cases h

/-- A source is there when its file can be opened. -/
theorem sourceInfo_ok_iff (files : FileSystem) (path : List U8) :
    (∃ s, SourceInfo.new files path = .ok s) ↔ files path ≠ none := by
  rw [SourceInfo.new]
  cases files path with
  | none => simp
  | some lines => simp

/-- The sources of a line program were read from their files. -/
theorem generateFilePaths_read {infoHeader : ProgramHeader}
    {sources : List SourceInfo}
    (h : generateFilePaths files infoHeader = .ok sources) :
    ReadFrom files sources := by
  obtain ⟨_, -, h⟩ := bind_eq_ok.1 h
  obtain ⟨_, -, h⟩ := bind_eq_ok.1 h
  obtain ⟨_, -, h⟩ := bind_eq_ok.1 h
  intro s hs
  obtain ⟨_, -, hfile⟩ :=
    Lockstep.exists_partner_right (mapM_eq_ok.1 h) hs
  obtain ⟨_, -, hfile⟩ := bind_eq_ok.1 hfile
  obtain ⟨_, -, hfile⟩ := bind_eq_ok.1 hfile
  obtain ⟨_, -, hfile⟩ := bind_eq_ok.1 hfile
  obtain ⟨_, -, hfile⟩ := bind_eq_ok.1 hfile
  exact sourceInfo_read hfile

/-- So were those of a unit. -/
theorem parseUnit_read {d : DebugSections} {offset line : Nat}
    {unit : ParsedUnit} (h : parseUnit files d offset line = .ok unit) :
    ReadFrom files unit.unit.debugLine.sourceInfo := by
  obtain ⟨u, hunit, h⟩ := bind_eq_ok.1 h
  obtain ⟨_, -, h⟩ := bind_eq_ok.1 h
  obtain ⟨_, -, h⟩ := bind_eq_ok.1 h
  cases h
  obtain ⟨_, -, hunit⟩ := bind_eq_ok.1 hunit
  obtain ⟨info, hinfo, hunit⟩ := bind_eq_ok.1 hunit
  obtain ⟨_, -, hunit⟩ := bind_eq_ok.1 hunit
  cases hunit
  obtain ⟨_, -, hinfo⟩ := bind_eq_ok.1 hinfo
  obtain ⟨_, -, hinfo⟩ := bind_eq_ok.1 hinfo
  obtain ⟨_, hpaths, hinfo⟩ := bind_eq_ok.1 hinfo
  obtain ⟨_, -, hinfo⟩ := bind_eq_ok.1 hinfo
  cases hinfo
  exact generateFilePaths_read hpaths

/-- And those of all units, by induction on the rounds. -/
theorem unitLoop_read {d : DebugSections} {fuel offset line : Nat}
    {units : List ParsedUnit}
    (h : unitLoop files d fuel offset line = .ok units) :
    ReadFrom files
      (units.flatMap fun cu => cu.unit.debugLine.sourceInfo) := by
  induction fuel generalizing offset line units with
  | zero => cases h
  | succ fuel ih =>
      by_cases hend : d.debugInfoStart + d.debugInfoSize.toNat ≤ offset
      · rw [unitLoop, if_pos hend] at h
        obtain rfl := Except.ok.inj h
        exact fun _ hs => absurd hs List.not_mem_nil
      · obtain ⟨unit, rest, hunit, hrest, rfl⟩ :=
          (unitLoop_unit (Nat.lt_of_not_le hend)).1 h
        intro s hs
        rcases List.mem_append.1 (List.flatMap_cons ▸ hs) with hs | hs
        · exact parseUnit_read hunit s hs
        · exact ih hrest s hs

/-- A source is shown as it was read. -/
theorem sources_read {fuel : Nat} {file : List U8} {p : DwarfParser}
    (h : DwarfParser.new files fuel file = .ok p) :
    ReadFrom files p.sources := by
  obtain ⟨accepted, -, h⟩ := bind_eq_ok.1 h
  cases accepted with
  | none => cases h
  | some elf =>
      obtain ⟨_, -, h⟩ := bind_eq_ok.1 h
      obtain ⟨units, hloop, h⟩ := bind_eq_ok.1 h
      obtain ⟨_, -, h⟩ := bind_eq_ok.1 h
      obtain ⟨_, -, h⟩ := bind_eq_ok.1 h
      cases h
      exact unitLoop_read hloop

/-- The path says which source it is. -/
theorem ReadFrom.eq_of_path {sources : List SourceInfo}
    (h : ReadFrom files sources) {a b : SourceInfo} (ha : a ∈ sources)
    (hb : b ∈ sources) (hpath : a.path = b.path) : a = b := by
  have hlines := (h a ha).symm.trans ((congrArg files hpath).trans (h b hb))
  obtain ⟨pathA, linesA⟩ := a
  obtain ⟨pathB, linesB⟩ := b
  obtain rfl : pathA = pathB := hpath
  exact congrArg (SourceInfo.mk pathA) (Option.some.inj hlines)

-- ============================================================== the list

namespace DwarfParser

variable {p : DwarfParser}

/-- From an empty list the loop keeps the first file of each path. -/
theorem getSourceInfo_nil (p : DwarfParser) :
    p.getSourceInfo [] = p.sources.foldl (Distinct.add (·.path)) [] :=
  (List.foldl_flatMap ..).symm

/-- What is kept is what was found. -/
theorem getSourceInfo_calls (p : DwarfParser) (n : Nat) :
    p.getSourceInfo^[n + 1] [] = p.getSourceInfo [] := by
  induction n with
  | zero => rfl
  | succ n ih =>
      rw [Function.iterate_succ_apply', ih]
      cases hfound : p.getSourceInfo [] with
      | nil => exact hfound
      | cons s sources => rfl

/-- It leaves out no file: two with one path are the same file. -/
theorem mem_getSourceInfo (h : ReadFrom files p.sources)
    {s : SourceInfo} : s ∈ p.getSourceInfo [] ↔ s ∈ p.sources := by
  rw [getSourceInfo_nil]
  exact Distinct.mem_fold_iff fun a ha b hb => h.eq_of_path ha hb

/-- And it has no path twice. -/
theorem paths_nodup (p : DwarfParser) :
    ((p.getSourceInfo []).map (·.path)).Nodup := by
  rw [getSourceInfo_nil]
  exact Distinct.keys_nodup List.nodup_nil

end DwarfParser

end T89Emu.Dwarf
