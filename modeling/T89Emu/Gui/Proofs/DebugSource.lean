/-
The tab of the program counter.

No frame changes the debug information, and a step takes the line of the
pc. So in a frame that steps the tab of the source that the line table
names is selected, its rows are the lines of the file, and the row of the
line is the one that is highlighted (`source_tab`).
-/
import T89Emu.Dwarf.Proofs.SourceFiles
import T89Emu.Gui.DebugSource
import T89Emu.Gui.Proofs.Application

namespace T89Emu

open Cpp Dwarf

variable {L : Layout}

-- ================================================= the debug information

namespace McuDebug

variable {d d' : McuDebug L}

/-- No cycle changes the debug information. -/
theorem executeLoop_dwarfParser {cycles : Nat}
    (h : d.executeLoop cycles = .ok d') :
    d'.dwarfParser = d.dwarfParser := by
  induction cycles generalizing d with
  | zero =>
      cases h
      rfl
  | succ cycles ih =>
      rw [executeLoop] at h
      split at h
      · cases h
        rfl
      · obtain ⟨mcu, -, h⟩ := bind_eq_ok.1 h
        exact ih (d := { d with mcu }) h

/-- Where a step has come to, and the line of that place unless there is
none. -/
theorem stepInstruction_line (h : d.stepInstruction = .ok d') :
    d'.dwarfParser = d.dwarfParser
      ∧ ∃ curLine, d.dwarfParser.getLineNumberAtPc d'.mcu.pc = .ok curLine
        ∧ (curLine ≠ 0 → d'.latestSourceLine = curLine) := by
  obtain ⟨mcu, -, h⟩ := bind_eq_ok.1 h
  obtain ⟨curLine, hline, h⟩ := bind_eq_ok.1 h
  cases h
  exact ⟨rfl, curLine, hline, fun hne => if_pos hne⟩

/-- A step by a line ends at the line that it returns. -/
theorem stepLineLoop_line {startPc curLine : U32} {fuel : Nat}
    {s t : Mcu L} (h : d.stepLineLoop startPc fuel s = .ok (t, curLine)) :
    d.dwarfParser.getLineNumberAtPc t.pc = .ok curLine := by
  induction fuel generalizing s with
  | zero => cases h
  | succ fuel ih =>
      rw [stepLineLoop] at h
      obtain ⟨mcu, -, h⟩ := bind_eq_ok.1 h
      obtain ⟨line, hline, h⟩ := bind_eq_ok.1 h
      split at h
      · exact ih h
      · cases h
        exact hline

/-- And this is the line that the debugger keeps. -/
theorem stepLine_line {fuel : Nat} (h : d.stepLine fuel = .ok d') :
    d'.dwarfParser = d.dwarfParser
      ∧ d.dwarfParser.getLineNumberAtPc d'.mcu.pc
        = .ok d'.latestSourceLine := by
  obtain ⟨⟨mcu, curLine⟩, hloop, h⟩ := bind_eq_ok.1 h
  cases h
  exact ⟨rfl, stepLineLoop_line hloop⟩

end McuDebug

namespace Gui

variable {g g' : Gui L} {fuel : Nat} {d : McuDebug L}

/-- Nothing that a frame runs changes the debug information. -/
theorem emulate_dwarfParser (h : g.emulate fuel = .ok d) :
    d.dwarfParser = g.debug.dwarfParser := by
  unfold emulate at h
  split at h
  · exact McuDebug.executeLoop_dwarfParser (toProc_eq_ok.1 h)
  · split at h
    · exact (McuDebug.stepInstruction_line h).1
    · split at h
      · exact (McuDebug.stepLine_line h).1
      · cases h
        rfl

/-- Nor do the breakpoint buttons. -/
theorem renderBreakpoints_dwarfParser (input : Input) (d : McuDebug L) :
    (renderBreakpoints input d).dwarfParser = d.dwarfParser := by
  unfold renderBreakpoints McuDebug.removeBreakpoint McuDebug.addBreakpoint
  split <;> split <;> try split
  all_goals rfl

/-- So no session does, by induction on its frames. -/
theorem run_dwarfParser {inputs : List Input}
    (h : runApplication fuel g inputs = .ok g') :
    g'.debug.dwarfParser = g.debug.dwarfParser := by
  induction inputs generalizing g with
  | nil =>
      cases h
      rfl
  | cons input inputs ih =>
      obtain ⟨g₁, hframe, h⟩ := bind_eq_ok.1 h
      obtain ⟨d, hemulate, rfl⟩ := frame_eq_ok.1 hframe
      rw [ih h]
      have hparser : d.dwarfParser = g.debug.dwarfParser :=
        emulate_dwarfParser hemulate
      exact (renderBreakpoints_dwarfParser ..).trans hparser

/-- A frame that steps takes the line of the pc, if it has one. -/
theorem emulate_line {line : U32} (h : g.emulate fuel = .ok d)
    (hoff : g.isRunEnabled = false) (hstep : g.doScroll = true)
    (hline : d.dwarfParser.getLineNumberAtPc d.mcu.pc = .ok line)
    (hne : line ≠ 0) : d.latestSourceLine = line := by
  unfold emulate at h
  rw [if_neg (by rw [hoff]; decide)] at h
  split at h
  · obtain ⟨hparser, curLine, hcurLine, hlatest⟩ :=
      McuDebug.stepInstruction_line h
    rw [hparser, hcurLine] at hline
    cases hline
    exact hlatest hne
  · next hstepi =>
    unfold doScroll at hstep
    rw [Bool.not_eq_true] at hstepi
    rw [hstepi, Bool.or_false] at hstep
    rw [if_pos hstep] at h
    obtain ⟨hparser, hcurLine⟩ := McuDebug.stepLine_line h
    rw [hparser, hcurLine] at hline
    exact Except.ok.inj hline

-- =============================================================== the rows

/-- The tab has the lines of the file, in order. -/
theorem map_line_renderLines (sourceLineAtPc : U32)
    (lines : List (List U8)) :
    (renderLines sourceLineAtPc lines).map (·.line) = lines := by
  unfold renderLines
  rw [List.mapIdx_eq_zipIdx_map, List.map_map]
  exact List.zipIdx_map_fst 0 lines

/-- The row of the line is highlighted, if the file has it. -/
theorem highlighted_renderLines {sourceLineAtPc : U32}
    (hne : sourceLineAtPc ≠ 0) (lines : List (List U8)) :
    (renderLines sourceLineAtPc lines).filter (·.highlighted)
      = (lines[sourceLineAtPc.toNat - 1]?.map fun line =>
          ⟨sourceLineAtPc.toNat, line, true⟩).toList := by
  have hpos : 0 < sourceLineAtPc.toNat :=
    Nat.pos_of_ne_zero fun h => hne (BitVec.eq_of_toNat_eq h)
  have hrow : sourceLineAtPc.toNat - 1 + 1 = sourceLineAtPc.toNat :=
    Nat.sub_add_cancel hpos
  unfold renderLines
  rw [Collect.filter_mapIdx (k := sourceLineAtPc.toNat - 1) fun i line => by
    rw [decide_eq_true_iff]
    omega, hrow, decide_eq_true rfl]

-- =============================================================== the tabs

variable {unit : ParsedUnit} {row : LineEntry} {source : SourceInfo}

/-- The lookups of a frame at a row of the line table. -/
theorem lookups_of_row {p : DwarfParser} {pc : U32}
    (hunit : p.getCompileUnitAtPc pc = .ok unit)
    (hrow : unit.unit.debugLine.getLineEntryAtPc pc = some row)
    (hsource : unit.unit.debugLine.sourceInfo[row.file.toNat]?
      = some source) :
    p.getLineNumberAtPc pc = .ok row.line
      ∧ p.getSourceNameAtPc pc = .ok source.getName := by
  unfold DwarfParser.getLineNumberAtPc DwarfParser.getSourceNameAtPc
  rw [hunit]
  unfold LineNumberInfo.getLineNumberAtPc LineNumberInfo.getSourceNameAtPc
  simp only [ok_bind, hrow, hsource]
  exact ⟨rfl, rfl⟩

/-- The unit that is found is one of the program. -/
theorem source_mem {p : DwarfParser} {pc : U32} {i : Nat}
    (hunit : p.getCompileUnitAtPc pc = .ok unit)
    (hsource : unit.unit.debugLine.sourceInfo[i]? = some source) :
    source ∈ p.sources := by
  unfold DwarfParser.getCompileUnitAtPc at hunit
  split at hunit
  · next found hfind =>
    cases hunit
    exact List.mem_flatMap.2 ⟨unit,
      List.mem_reverse.1 (List.mem_of_find?_eq_some hfind),
      List.mem_of_getElem? hsource⟩
  · cases hunit

/-- The sources of the debugger were read from their files. -/
theorem dwarfParser_read {files : FileSystem} {file : List U8}
    {d : McuDebug L} (h : McuDebug.new files fuel file = .ok ⟨L, d⟩) :
    ReadFrom files d.dwarfParser.sources := by
  obtain ⟨accepted, -, h⟩ := bind_eq_ok.1 h
  cases accepted with
  | none => cases h
  | some elf =>
      obtain ⟨dwarfParser, hparser, h⟩ := bind_eq_ok.1 h
      obtain ⟨_, -, h⟩ := bind_eq_ok.1 h
      obtain ⟨_, -, h⟩ := bind_eq_ok.1 h
      obtain ⟨_, -, h⟩ := bind_eq_ok.1 h
      obtain ⟨_, -, h⟩ := bind_eq_ok.1 h
      obtain ⟨_, hattach, h⟩ := bind_eq_ok.1 h
      obtain ⟨_, -, hattach⟩ := bind_eq_ok.1 hattach
      cases h
      cases hattach
      exact sources_read hparser

/-- When the application steps to a place that the line table knows, the
tab of its source is selected: of the tabs, those and only those with the
name of the file. The rows of this one are the lines of the file, and the
row of the line, if there is one, is the only one highlighted. No other
tab is selected if no other path ends in the name. -/
theorem source_tab (files : FileSystem) (fuel : Nat) (file : List U8)
    (L : Layout) (d d' : McuDebug L) (inputs : List Input) (g : Gui L)
    (unit : ParsedUnit) (row : LineEntry) (source : SourceInfo) (n : Nat)
    (hnew : McuDebug.new files fuel file = .ok ⟨L, d⟩)
    (hrun : runApplication fuel (new d) inputs = .ok g)
    (hoff : g.isRunEnabled = false) (hstep : g.doScroll = true)
    (hframe : g.emulate fuel = .ok d')
    (hunit : d'.dwarfParser.getCompileUnitAtPc d'.mcu.pc = .ok unit)
    (hrow : unit.unit.debugLine.getLineEntryAtPc d'.mcu.pc = some row)
    (hline : row.line ≠ 0)
    (hsource : unit.unit.debugLine.sourceInfo[row.file.toNat]?
      = some source) :
    ∃ tabs tab lines,
      { g with debug := d' }.renderDebugSource
          (d.dwarfParser.getSourceInfo^[n] []) = .ok tabs
        ∧ tab ∈ tabs ∧ tab.name = source.getName
        ∧ files source.path = some lines
        ∧ tab.rows.map (·.line) = lines
        ∧ tab.rows.filter (·.highlighted)
          = (lines[row.line.toNat - 1]?.map fun line =>
              ⟨row.line.toNat, line, true⟩).toList
        ∧ (∀ other ∈ tabs, other.setSelected = true
          ↔ other.name = source.getName)
        ∧ ((∀ s ∈ d.dwarfParser.sources, s.getName = source.getName →
            s.path = source.path) →
          tabs.filter (·.setSelected) = [tab]) := by
  have hparser : d'.dwarfParser = d.dwarfParser :=
    (emulate_dwarfParser hframe).trans (run_dwarfParser hrun)
  have hread := dwarfParser_read hnew
  obtain ⟨hlineAtPc, hname⟩ := lookups_of_row hunit hrow hsource
  have hlatest := emulate_line hframe hoff hstep hlineAtPc hline
  have hsources : source ∈ d.dwarfParser.sources :=
    hparser ▸ source_mem hunit hsource
  have hlisted := (DwarfParser.mem_getSourceInfo hread).2 hsources
  let shown : Gui L := { g with debug := d' }
  have htabs : shown.renderDebugSource (d.dwarfParser.getSourceInfo^[n] [])
      = .ok ((d.dwarfParser.getSourceInfo []).map
        (shown.renderSource source.getName)) := by
    unfold renderDebugSource
    rw [← d.dwarfParser.getSourceInfo_calls n,
      Function.iterate_succ_apply', ← hparser]
    exact congrArg (· >>= _) hname
  have hselected : ∀ s, (shown.renderSource source.getName s).setSelected
      = true ↔ s.getName = source.getName := fun s => by
    unfold renderSource
    rw [show shown.doScroll = true from hstep, Bool.true_and,
      decide_eq_true_iff]
  refine ⟨_, shown.renderSource source.getName source, source.lines, htabs,
    List.mem_map.2 ⟨source, hlisted, rfl⟩, rfl,
    hread source hsources,
    map_line_renderLines .., ?_, ?_, fun hunique => ?_⟩
  · rw [← hlatest]
    exact highlighted_renderLines (hlatest ▸ hline) source.lines
  · intro other hother
    obtain ⟨s, -, rfl⟩ := List.mem_map.1 hother
    exact hselected s
  · rw [List.filter_map, Collect.filter_eq_singleton
      d.dwarfParser.paths_nodup.of_map hlisted fun s hs => ?_]
    · rfl
    · refine (hselected s).trans ⟨fun hsame => ?_, congrArg _⟩
      have hin := (DwarfParser.mem_getSourceInfo hread).1 hs
      exact hread.eq_of_path hin hsources (hunique s hin hsame)

-- ================================================================ one file

/-- The line program of two lines, and the file they are lines of, which
the table names twice. -/
def namedProgram : List U8 :=
  [61, 0, 0, 0, 5, 0, 4, 0, 36, 0, 0, 0, 1, 1, 1, 0xf6, 0xf2, 13]
    ++ [0, 1, 1, 1, 1, 0, 0, 0, 1, 0, 0, 1] ++ [1, 1, 8, 1, 0x2f, 0]
    ++ [2, 1, 8, 2, 0x0b, 2, 0x61, 0, 0, 0x61, 0, 0]
    ++ [0, 5, 2, 0, 0, 0, 0x80, 1, 3, 1, 9, 4, 0, 1, 0, 1, 1]

/-- The program of `McuDebug.storeLoadFile` with this line program. -/
def namedFile : List U8 :=
  [0x7f, 0x45, 0x4c, 0x46, 1, 1, 1, 0, 0, 0, 0, 0, 0, 0, 0, 0,
      2, 0, 0xf3, 0, 1, 0, 0, 0]
    ++ [0x80000000, 52, 376, 0].flatMap McuDebug.wordBytes
    ++ [52, 0, 32, 0, 2, 0, 40, 0, 9, 0, 8, 0]
    ++ McuDebug.programHeader 116 0x80000000 16 5
    ++ McuDebug.programHeader 132 0x40000000 4 6
    ++ [0x400000b7, 0x0010a023, 0x0000a103, 0x0000006f, 0x30000008].flatMap
      McuDebug.wordBytes
    ++ McuDebug.twoLineUnit ++ McuDebug.twoLineAbbrev ++ namedProgram
    ++ [0, 0, 0, 0, 1, 0x80000000, 16, 2].flatMap McuDebug.wordBytes
    ++ sectionName "\x00_start\x00"
    ++ ([".debug_info", ".debug_abbrev", ".debug_str", ".debug_line",
      ".debug_line_str", ".debug_frame", ".symtab", ".strtab",
      ".shstrtab"].flatMap fun name => sectionName name ++ [0])
    ++ McuDebug.sectionEntry 0 136 21 ++ McuDebug.sectionEntry 12 157 10
    ++ McuDebug.sectionEntry 26 232 0 ++ McuDebug.sectionEntry 37 167 65
    ++ McuDebug.sectionEntry 49 232 0 ++ McuDebug.sectionEntry 65 232 0
    ++ McuDebug.sectionEntry 78 232 32 ++ McuDebug.sectionEntry 86 264 8
    ++ McuDebug.sectionEntry 94 272 104

/-- `//a` is there, with two lines. -/
def oneSource : FileSystem := fun path =>
  if path = [0x2f, 0x2f, 0x61] then some [[0x31], [0x32]] else none

/-- After a step of an instruction, the row of the second line is
highlighted. -/
theorem named_tab :
    ∃ (d d' : McuDebug .linker) (g : Gui .linker) (tabs : List SourceTab)
      (tab : SourceTab),
      McuDebug.new oneSource 2 namedFile = .ok ⟨.linker, d⟩
        ∧ runApplication 2 (new d) [{ idle with stepi := true }] = .ok g
        ∧ g.emulate 2 = .ok d'
        ∧ { g with debug := d' }.renderDebugSource [] = .ok tabs
        ∧ tab ∈ tabs ∧ tab.setSelected = true
        ∧ tab.rows.filter (·.highlighted) = [⟨2, [0x32], true⟩] := by
  have hrun : (McuDebug.new oneSource 2 namedFile >>= fun r =>
      runApplication 2 (new r.2) [{ idle with stepi := true }] >>= fun g =>
        g.emulate 2 >>= fun d' =>
          (d'.dwarfParser.getCompileUnitAtPc d'.mcu.pc).map fun unit =>
            ((r.1.romBase, r.1.ramBase), (g.isRunEnabled, g.doScroll),
              unit.unit.debugLine.getLineEntryAtPc d'.mcu.pc,
              unit.unit.debugLine.sourceInfo[1]?))
        = .ok ((0x80000000, 0x40000000), (false, true),
          some ⟨0x80000004, 2, 0, 1, true, false, false⟩,
          some ⟨[0x2f, 0x2f, 0x61], [[0x31], [0x32]]⟩) := by
    decide +kernel
  obtain ⟨⟨⟨romBase, ramBase⟩, d⟩, hnew, hrun⟩ := bind_eq_ok.1 hrun
  obtain ⟨g, hrun, hframe⟩ := bind_eq_ok.1 hrun
  obtain ⟨d', hframe, hunit⟩ := bind_eq_ok.1 hframe
  obtain ⟨unit, hunit, hfacts⟩ := map_eq_ok.1 hunit
  obtain ⟨hbases, hfacts⟩ := Prod.mk.inj hfacts
  obtain ⟨hrom, hram⟩ := Prod.mk.inj hbases
  obtain ⟨hflags, hfacts⟩ := Prod.mk.inj hfacts
  obtain ⟨hoff, hstep⟩ := Prod.mk.inj hflags
  obtain ⟨hrow, hsource⟩ := Prod.mk.inj hfacts
  dsimp only at hrom hram
  subst hrom hram
  obtain ⟨tabs, tab, lines, htabs, htab, hname, hlines, -, hhigh,
    hselected, -⟩ := source_tab oneSource 2 namedFile .linker d d'
      [{ idle with stepi := true }] g unit _ _ 0 hnew hrun hoff hstep hframe
      hunit hrow (by decide) hsource
  cases hlines
  exact ⟨d, d', g, tabs, tab, hnew, hrun, hframe, htabs, htab,
    (hselected tab htab).2 hname, hhigh⟩

end Gui

end T89Emu
