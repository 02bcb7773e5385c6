/-
Which line program a compile unit gets.

The constructor of the parser walks .debug_info and .debug_line side by
side: the pointer into .debug_line moves on by the length of the program
that was read, whatever the unit's DW_AT_stmt_list says. So unit and
program belong together exactly when the attributes name the programs in
the order in which they lie in the section, one for each unit.

What a unit holds apart from its line table is read by `readUnit`;
`parseUnit_eq_ok` says that a round of the loop is that and the line
program at the parser's pointer, and both directions of the result are
inductions over the units.
-/
import T89Emu.Dwarf.DwarfParser

namespace T89Emu.Dwarf

open Cpp Decode

-- ================================================== units and attributes

/-- A unit of .debug_info, its line table apart. -/
structure UnitInfo where
  compileUnitLen : U32
  compileUnit : CompileUnit
  root : DebugInfoEntry
  rootScope : Scope

/-- What `parseUnit` reads of .debug_info. -/
def readUnit (d : DebugSections) (debugInfoOffset : Nat) :
    Proc UnitInfo := do
  let (compileUnitLen, u, debugStream) ← openUnit d debugInfoOffset
  let (root, _) ← u.generateDebugInfo none debugStream
  match root.kept with
  | some root => do
      let rootScope ← generateScopes root
      pure ⟨compileUnitLen, u, root, rootScope⟩
  | none => throw .dangling

/-- The place in the file that an entry's DW_AT_stmt_list gives. -/
def lineTableOf (d : DebugSections) (root : DebugInfoEntry) :
    Option Nat :=
  match root.getAttribute .stmt_list with
  | some data =>
      match data.getUInt with
      | .ok offset => some (d.debugLineStart + offset.toNat)
      | .error _ => none
  | none => none

/-- The line table of the unit was parsed from the place that its own
DW_AT_stmt_list gives. -/
def Unit.Paired (files : FileSystem) (d : DebugSections) (unit : Unit) :
    Prop :=
  ∃ root place u, unit.root = some root ∧ lineTableOf d root = some place
    ∧ LineNumberInfo.new files u d.elfData place = .ok unit.debugLine

/-- The units of .debug_info from an offset to its end, each of which can
be read, together with the line program that its attribute gives. -/
inductive UnitsFrom (files : FileSystem) (d : DebugSections) :
    Nat → List UnitInfo → Prop
  | done {offset : Nat}
      (hend : d.debugInfoStart + d.debugInfoSize.toNat ≤ offset) :
      UnitsFrom files d offset []
  | unit {offset : Nat} {info : UnitInfo} {infos : List UnitInfo}
      (hmore : offset < d.debugInfoStart + d.debugInfoSize.toNat)
      (hread : readUnit d offset = .ok info)
      (hline : ∀ place, lineTableOf d info.root = some place →
        ∃ debugLine, LineNumberInfo.new files info.compileUnit d.elfData
          place = .ok debugLine)
      (hnext : UnitsFrom files d (offset + info.compileUnitLen.toNat)
        infos) :
      UnitsFrom files d offset (info :: infos)

/-- The length of the line program at a place, as its first word has
it. -/
def programLength (d : DebugSections) (place : Nat) : Nat :=
  match decodeUInt32 (.unbounded (some (d.elfData.drop place))) with
  | .ok (unitLength, _) => (4 + unitLength).toNat
  | .error _ => 0

/-- The attributes give the line programs that lie one behind the other
from a place on. -/
def InOrder (d : DebugSections) : Nat → List UnitInfo → Prop
  | _, [] => True
  | place, info :: infos =>
      lineTableOf d info.root = some place
        ∧ InOrder d (place + programLength d place) infos

instance (d : DebugSections) :
    (place : Nat) → (infos : List UnitInfo) →
      Decidable (InOrder d place infos)
  | _, [] => isTrue trivial
  | place, _ :: infos =>
      have : Decidable (InOrder d (place + programLength d place) infos) :=
        instDecidableInOrder d _ infos
      inferInstanceAs (Decidable (_ ∧ _))

-- ======================================================= line programs

/-- The first word of a header is its length. -/
theorem parseProgramHeader_unitLength {u : CompileUnit}
    {s s' : DataStream} {h : ProgramHeader}
    (hparse : parseProgramHeader u s = .ok (h, s')) :
    ∃ s₁, decodeUInt32 s = .ok (h.unitLength, s₁) := by
  obtain ⟨⟨unitLength, s₁⟩, hlength, hrest⟩ := bind_eq_ok.1 hparse
  suffices hsame : h.unitLength = unitLength from ⟨s₁, hsame ▸ hlength⟩
  refine Delivers.bind (P := fun h => h.unitLength = unitLength) ?_ s₁ h
    s' hrest
  iterate 11 refine fun _ => Delivers.bind ?_
  rintro ⟨_, _⟩
  refine Delivers.bind ?_
  rintro ⟨_, _⟩
  refine Delivers.bind ?_
  rintro ⟨_, _⟩
  refine Delivers.bind ?_
  rintro ⟨_, _⟩
  exact Delivers.pure rfl

/-- Two streams with the same bytes in front deliver the same word. -/
theorem decodeUInt32_congr (s s' : DataStream) (h : s.rest = s'.rest) :
    (decodeUInt32 s).map Prod.fst = (decodeUInt32 s').map Prod.fst := by
  simp only [decodeUInt32, h]
  cases s'.rest[0]? with
  | none => rfl
  | some b0 =>
  cases s'.rest[1]? with
  | none => rfl
  | some b1 =>
  cases s'.rest[2]? with
  | none => rfl
  | some b2 =>
  cases s'.rest[3]? with
  | none => rfl
  | some b3 => rfl

/-- What is known of line number information that was built. -/
theorem lineNumberInfo_new {files : FileSystem} {u : CompileUnit}
    {d : DebugSections} {place : Nat} {info : LineNumberInfo}
    (h : LineNumberInfo.new files u d.elfData place = .ok info) :
    info.debugLineStart = place
      ∧ info.getLength.toNat = programLength d place := by
  obtain ⟨⟨unitLength, s₁⟩, hlength, h⟩ := bind_eq_ok.1 h
  obtain ⟨⟨infoHeader, s₂⟩, hheader, h⟩ := bind_eq_ok.1 h
  obtain ⟨sourceInfo, -, h⟩ := bind_eq_ok.1 h
  obtain ⟨⟨m, s₃⟩, -, h⟩ := bind_eq_ok.1 h
  obtain rfl := Except.ok.inj h
  refine ⟨rfl, ?_⟩
  obtain ⟨s₄, hword⟩ := parseProgramHeader_unitLength hheader
  have hsame : infoHeader.unitLength = unitLength := by
    have hboth := decodeUInt32_congr ⟨some (d.elfData.drop place), 0,
      (4 + unitLength).toNat⟩ (.unbounded (some (d.elfData.drop place))) rfl
    rw [hword, hlength] at hboth
    exact Except.ok.inj hboth
  simp only [programLength, hlength, LineNumberInfo.getLength, hsame]

-- ====================================================== the constructor

/-- A round of the loop reads the unit, and the line program at the
parser's pointer. -/
theorem parseUnit_eq_ok {files : FileSystem} {d : DebugSections}
    {debugInfoOffset debugLineStart : Nat} {unit : ParsedUnit} :
    parseUnit files d debugInfoOffset debugLineStart = .ok unit
      ↔ ∃ info debugLine, readUnit d debugInfoOffset = .ok info
        ∧ LineNumberInfo.new files info.compileUnit d.elfData
            debugLineStart = .ok debugLine
        ∧ unit = ⟨⟨info.compileUnitLen, debugLine, some info.root⟩,
            info.rootScope⟩ := by
  constructor
  · intro h
    obtain ⟨built, hbuilt, h⟩ := bind_eq_ok.1 h
    obtain ⟨root, hroot, h⟩ := bind_eq_ok.1 h
    obtain ⟨scope, hscope, h⟩ := bind_eq_ok.1 h
    obtain ⟨⟨compileUnitLen, u, stream⟩, hopen, hbuilt⟩ :=
      bind_eq_ok.1 hbuilt
    obtain ⟨debugLine, hline, hbuilt⟩ := bind_eq_ok.1 hbuilt
    obtain ⟨⟨generated, s'⟩, hgenerate, hbuilt⟩ := bind_eq_ok.1 hbuilt
    obtain rfl := Except.ok.inj hbuilt
    obtain rfl := Except.ok.inj h
    have hkept : generated.kept = some root := by
      cases hk : generated.kept with
      | none => simp [Unit.rootEntry, hk] at hroot
      | some root' =>
          simp only [Unit.rootEntry, hk, pure_eq_ok] at hroot
          rw [Except.ok.inj hroot]
    refine ⟨⟨compileUnitLen, u, root, scope⟩, debugLine, ?_, hline,
      by rw [hkept]⟩
    simp only [readUnit, hopen, ok_bind, hgenerate, hkept, hscope,
      pure_eq_ok]
  · rintro ⟨info, debugLine, hread, hline, rfl⟩
    obtain ⟨⟨compileUnitLen, u, stream⟩, hopen, hread⟩ :=
      bind_eq_ok.1 hread
    obtain ⟨⟨generated, s'⟩, hgenerate, hread⟩ := bind_eq_ok.1 hread
    cases hkept : generated.kept with
    | none => simp [hkept] at hread
    | some root =>
        simp only [hkept] at hread
        obtain ⟨scope, hscope, hinfo⟩ := bind_eq_ok.1 hread
        obtain rfl := Except.ok.inj hinfo
        simp only [parseUnit, Unit.new, hopen, ok_bind, hline, hgenerate,
          Unit.rootEntry, hkept, pure_eq_ok, hscope]

/-- The unit of a round is paired with its line program when its
attribute gives the place of the parser's pointer. -/
theorem paired_iff {files : FileSystem} {d : DebugSections}
    {info : UnitInfo} {debugLineStart : Nat} {debugLine : LineNumberInfo}
    (hline : LineNumberInfo.new files info.compileUnit d.elfData
      debugLineStart = .ok debugLine) :
    Unit.Paired files d ⟨info.compileUnitLen, debugLine, some info.root⟩
      ↔ lineTableOf d info.root = some debugLineStart := by
  constructor
  · rintro ⟨root, place, u, hroot, hplace, hnew⟩
    obtain rfl := Option.some.inj hroot
    rw [hplace, ← (lineNumberInfo_new hnew).1,
      (lineNumberInfo_new hline).1]
  · intro hplace
    exact ⟨info.root, debugLineStart, info.compileUnit, rfl, hplace, hline⟩

/-- A round of the loop that is not its end. -/
theorem unitLoop_unit {files : FileSystem} {d : DebugSections}
    {fuel offset debugLineStart : Nat}
    (hmore : offset < d.debugInfoStart + d.debugInfoSize.toNat)
    {units : List ParsedUnit} :
    unitLoop files d (fuel + 1) offset debugLineStart = .ok units
      ↔ ∃ unit rest,
        parseUnit files d offset debugLineStart = .ok unit
        ∧ unitLoop files d fuel (offset + unit.unit.getDebugInfoLength)
            (debugLineStart + unit.unit.getDebugLineLength) = .ok rest
        ∧ units = unit :: rest := by
  rw [unitLoop, if_neg (by omega), bind_eq_ok]
  constructor
  · rintro ⟨unit, hunit, h⟩
    obtain ⟨rest, hrest, h⟩ := bind_eq_ok.1 h
    exact ⟨unit, rest, hunit, hrest, (Except.ok.inj h).symm⟩
  · rintro ⟨unit, rest, hunit, hrest, rfl⟩
    exact ⟨unit, hunit, bind_eq_ok.2 ⟨rest, hrest, rfl⟩⟩

/-- Units in the order of their line programs are built, and each gets
its own. -/
theorem unitLoop_of_inOrder {files : FileSystem} {d : DebugSections}
    {offset debugLineStart : Nat} {infos : List UnitInfo}
    (hunits : UnitsFrom files d offset infos)
    (horder : InOrder d debugLineStart infos) :
    ∃ units, unitLoop files d (infos.length + 1) offset debugLineStart
        = .ok units
      ∧ ∀ unit ∈ units, unit.unit.Paired files d := by
  induction hunits generalizing debugLineStart with
  | done hend =>
      refine ⟨[], ?_, by simp⟩
      simp only [List.length_nil, unitLoop, if_pos hend, pure_eq_ok]
  | @unit offset info infos hmore hread hline _ ih =>
      obtain ⟨hplace, hrest⟩ := horder
      obtain ⟨debugLine, hnew⟩ := hline debugLineStart hplace
      rw [← (lineNumberInfo_new hnew).2] at hrest
      obtain ⟨units, hloop, hpaired⟩ := ih hrest
      have hunit := parseUnit_eq_ok.2 ⟨info, debugLine, hread, hnew, rfl⟩
      refine ⟨_, (unitLoop_unit hmore).2 ⟨_, units, hunit, hloop, rfl⟩, ?_⟩
      rintro unit (_ | ⟨_, hunit⟩)
      · exact (paired_iff hnew).2 hplace
      · exact hpaired unit hunit

/-- Units that were built with their own line programs are read, and
their attributes give the programs in their order. -/
theorem inOrder_of_paired {files : FileSystem} {d : DebugSections}
    {fuel offset debugLineStart : Nat} {units : List ParsedUnit}
    (hloop : unitLoop files d fuel offset debugLineStart = .ok units)
    (hpaired : ∀ unit ∈ units, unit.unit.Paired files d) :
    ∃ infos, UnitsFrom files d offset infos
      ∧ InOrder d debugLineStart infos := by
  induction fuel generalizing offset debugLineStart units with
  | zero => simp [unitLoop] at hloop
  | succ fuel ih =>
      by_cases hend : d.debugInfoStart + d.debugInfoSize.toNat ≤ offset
      · exact ⟨[], .done hend, trivial⟩
      have hmore := Nat.lt_of_not_le hend
      obtain ⟨unit, rest, hunit, hrest, rfl⟩ := (unitLoop_unit hmore).1 hloop
      obtain ⟨info, debugLine, hread, hnew, rfl⟩ := parseUnit_eq_ok.1 hunit
      have hplace := (paired_iff hnew).1
        (hpaired _ List.mem_cons_self)
      obtain ⟨infos, hinfos, horder⟩ := ih hrest
        fun unit h => hpaired unit (List.mem_cons_of_mem _ h)
      refine ⟨info :: infos, .unit hmore hread ?_ hinfos, hplace, ?_⟩
      · intro place h
        rw [hplace] at h
        obtain rfl := Option.some.inj h
        exact ⟨debugLine, hnew⟩
      · rwa [← (lineNumberInfo_new hnew).2]

/-- Every unit gets its own line table exactly when the units can be read
and their attributes give the line programs of .debug_line in the order
in which they lie there, without a gap. -/
theorem lineTables_paired_iff (files : FileSystem) (d : DebugSections) :
    (∃ fuel units,
        unitLoop files d fuel d.debugInfoStart d.debugLineStart = .ok units
        ∧ ∀ unit ∈ units, unit.unit.Paired files d)
      ↔ ∃ infos, UnitsFrom files d d.debugInfoStart infos
        ∧ InOrder d d.debugLineStart infos := by
  constructor
  · rintro ⟨fuel, units, hloop, hpaired⟩
    exact inOrder_of_paired hloop hpaired
  · rintro ⟨infos, hunits, horder⟩
    exact ⟨infos.length + 1, unitLoop_of_inOrder hunits horder⟩

-- ======================================================== two units

/-- A unit of one entry, whose DW_AT_stmt_list has this low byte. -/
def unitBytes (stmtList : U8) : List U8 :=
  [13, 0, 0, 0, 5, 0, 1, 4, 0, 0, 0, 0, 1, stmtList, 0, 0, 0]

/-- A line program without instructions, in a directory of one letter. -/
def lineProgramBytes (letter : U8) : List U8 :=
  [23, 0, 0, 0, 5, 0, 4, 0, 15, 0, 0, 0, 1, 1, 1, 1, 1, 1, 1, 1, 8, 1,
    0x2f, letter, 0, 0, 0]

/-- Two units whose line programs lie in the other order. -/
def swappedPrograms : DebugSections where
  elfData := unitBytes 27 ++ unitBytes 0 ++ [1, 0x11, 0, 0x10, 0x17, 0, 0, 0]
    ++ lineProgramBytes 0x61 ++ lineProgramBytes 0x62
  debugInfoStart := 0
  debugInfoSize := 34
  debugAbbrevStart := 34
  debugStrStart := 0
  debugLineStrStart := 0
  debugLineStart := 42
  debugFrameStart := 0
  debugFrameSize := 0

/-- No source file is there, and none is asked for. -/
def noFiles : FileSystem := fun _ => none

/-- A unit that can be read, with the line program at the place that its
attribute gives: what an evaluation finds of it. -/
theorem swapped_unit (offset place : Nat) {infos : List UnitInfo}
    (hmore : offset < 34)
    (hread : (readUnit swappedPrograms offset).map (fun info =>
      (lineTableOf swappedPrograms info.root, info.compileUnitLen,
        (LineNumberInfo.new noFiles info.compileUnit
          swappedPrograms.elfData place).isOk)) = .ok (some place, 17, true))
    (hnext : UnitsFrom noFiles swappedPrograms (offset + 17) infos) :
    ∃ info, UnitsFrom noFiles swappedPrograms offset (info :: infos) := by
  obtain ⟨info, hread, hfacts⟩ := map_eq_ok.1 hread
  obtain ⟨hplace, hlen, hline⟩ : lineTableOf swappedPrograms info.root
      = some place ∧ info.compileUnitLen = 17
      ∧ (LineNumberInfo.new noFiles info.compileUnit
          swappedPrograms.elfData place).isOk = true := by
    simpa using hfacts
  refine ⟨info, .unit hmore hread ?_ (by rw [hlen]; exact hnext)⟩
  intro place' h
  rw [hplace] at h
  obtain rfl := Option.some.inj h
  cases hnew : LineNumberInfo.new noFiles info.compileUnit
      swappedPrograms.elfData place with
  | error e => rw [hnew] at hline; cases hline
  | ok debugLine => exact ⟨debugLine, rfl⟩

/-- Of each unit: the place that its attribute gives, and the one that
its line table was parsed from. -/
def places (units : List ParsedUnit) : List (Option Nat × Nat) :=
  units.map fun unit =>
    (unit.unit.root.bind (lineTableOf swappedPrograms),
      unit.unit.debugLine.debugLineStart)

/-- Both units and both line programs can be read, and each unit gets the
line table of the other one. -/
theorem line_tables_swapped :
    (∃ infos, UnitsFrom noFiles swappedPrograms
        swappedPrograms.debugInfoStart infos)
      ∧ ∃ units, unitLoop noFiles swappedPrograms 3
          swappedPrograms.debugInfoStart swappedPrograms.debugLineStart
            = .ok units
        ∧ places units = [(some 69, 42), (some 42, 69)]
        ∧ ¬ ∀ unit ∈ units, unit.unit.Paired noFiles swappedPrograms := by
  constructor
  · obtain ⟨second, hsecond⟩ := swapped_unit 17 42 (by decide)
      (by decide +kernel)
      (.done (by show 0 + 34 ≤ 17 + 17; decide))
    obtain ⟨first, hfirst⟩ := swapped_unit 0 69 (by decide)
      (by decide +kernel) hsecond
    exact ⟨[first, second], hfirst⟩
  · have hloop : (unitLoop noFiles swappedPrograms 3
        swappedPrograms.debugInfoStart swappedPrograms.debugLineStart).map
          places = .ok [(some 69, 42), (some 42, 69)] := by
      decide +kernel
    obtain ⟨units, hunits, hplaces⟩ := map_eq_ok.1 hloop
    refine ⟨units, hunits, hplaces, fun hpaired => ?_⟩
    have hsame : ∀ p ∈ places units, p.1 = some p.2 := by
      intro p hp
      obtain ⟨unit, hunit, rfl⟩ := List.mem_map.1 hp
      obtain ⟨root, place, u, hroot, hplace, hnew⟩ := hpaired unit hunit
      show unit.unit.root.bind _ = some unit.unit.debugLine.debugLineStart
      rw [hroot, Option.bind_some, hplace, (lineNumberInfo_new hnew).1]
    rw [hplaces] at hsame
    exact absurd (hsame _ List.mem_cons_self) (by decide)

end T89Emu.Dwarf
