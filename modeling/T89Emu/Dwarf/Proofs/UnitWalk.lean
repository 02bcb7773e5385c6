/-
How the constructor walks over the units.

Each round moves one pointer on through .debug_info and another one
through .debug_line, by the length of what lies there and the four bytes
of the length itself. Both sums are of 32 bits, so a length within four
bytes of 2^32 moves its pointer by next to nothing (`round_moves`), and
the walk may come to a place where it stays.

Where no sum wraps, a unit takes four bytes or more, and two of them
twelve or more: a unit that is shorter than its header lends the next one
the byte of its address size, which is 4, as a part of the length
(`Reaches.far`).
-/
import T89Emu.Dwarf.Proofs.DataStream
import T89Emu.Dwarf.Proofs.LineTables

namespace T89Emu.Dwarf

open Bytes Cpp Decode Elf

-- ================================================================ the words

/-- A word is made of the bytes that lie there. -/
theorem byteAt_of_wordAt {elfData : List U8} {p : Nat} {v : U32}
    (h : wordAt elfData p = .ok v) {k : Nat} (hk : k < 4) :
    byteAt elfData (p + k) = .ok (byteOf v k) := by
  obtain ⟨b0, h0, h⟩ := bind_eq_ok.1 h
  obtain ⟨b1, h1, h⟩ := bind_eq_ok.1 h
  obtain ⟨b2, h2, h⟩ := bind_eq_ok.1 h
  obtain ⟨b3, h3, h⟩ := bind_eq_ok.1 h
  obtain rfl := Except.ok.inj h
  obtain ⟨hb0, hb1, hb2, hb3⟩ := byteOf_word b0 b1 b2 b3
  match k with
  | 0 => exact h0.trans (congrArg Except.ok hb0.symm)
  | 1 => exact h1.trans (congrArg Except.ok hb1.symm)
  | 2 => exact h2.trans (congrArg Except.ok hb2.symm)
  | 3 => exact h3.trans (congrArg Except.ok hb3.symm)

/-- And is at least as large as each of them. -/
theorem toNat_byteOf_le {m : Nat} (v : BitVec m) (k : Nat) :
    (byteOf v k).toNat ≤ v.toNat := by
  rw [byteOf, BitVec.extractLsb'_toNat]
  exact (Nat.mod_le _ _).trans (Nat.shiftRight_le _ _)

/-- The decoder reads the same word. -/
theorem wordAt_of_uint32 {elfData : List U8} {p : Nat} {v : U32}
    {s' : DataStream}
    (h : decodeUInt32 (.unbounded (some (elfData.drop p))) = .ok (v, s')) :
    wordAt elfData p = .ok v := by
  have hrest : (DataStream.unbounded (some (elfData.drop p))).rest
      = elfData.drop p := rfl
  obtain ⟨b0, h0, h⟩ := bind_eq_ok.1 h
  obtain ⟨b1, h1, h⟩ := bind_eq_ok.1 h
  obtain ⟨b2, h2, h⟩ := bind_eq_ok.1 h
  obtain ⟨b3, h3, h⟩ := bind_eq_ok.1 h
  obtain ⟨hv, -⟩ := Prod.mk.inj (Except.ok.inj h)
  have hread : ∀ {k : Nat} {b : U8},
      (Eval.toProc (deref (DataStream.unbounded
        (some (elfData.drop p))).rest[k]?) : Proc U8) = .ok b →
      byteAt elfData (p + k) = .ok b := by
    intro k b hb
    rw [hrest, List.getElem?_drop] at hb
    exact toProc_eq_ok.1 hb
  rw [wordAt, show byteAt elfData p = .ok b0 from hread h0, ok_bind,
    hread h1, ok_bind, hread h2, ok_bind, hread h3, ok_bind, ← hv]
  rfl

/-- Where the cursor is behind a word, and behind a halfword. -/
theorem skip_of_uint32 {s s' : DataStream} {v : U32}
    (h : decodeUInt32 s = .ok (v, s')) : s' = s.skip 4 := by
  obtain ⟨w, t, hs⟩ := front_of_uint32 h
  have hread := reads_uint32 w s t hs
  exact (Prod.mk.inj (Except.ok.inj (h.symm.trans hread))).2

theorem skip_of_uint16 {s s' : DataStream} {v : U16}
    (h : decodeUInt16 s = .ok (v, s')) : s' = s.skip 2 := by
  obtain ⟨w, t, hs⟩ := front_of_uint16 h
  have hread := reads_uint16 w s t hs
  exact (Prod.mk.inj (Except.ok.inj (h.symm.trans hread))).2

-- =============================================================== one round

/-- A header that is read has its length in front, and an address size of
4 in its eighth byte. -/
theorem unitHeader_bytes {elfData : List U8} {p : Nat}
    {header : CompileUnitHeader}
    (h : CompileUnitHeader.new (elfData.drop p) = .ok header) :
    wordAt elfData p = .ok header.unitLength
      ∧ byteAt elfData (p + 7) = .ok 4#8 := by
  let s := DataStream.unbounded (some (elfData.drop p))
  obtain ⟨⟨header', s'⟩, hdecode, h⟩ := bind_eq_ok.1 h
  obtain ⟨⟨unitLength, s₁⟩, hlength, hdecode⟩ := bind_eq_ok.1 hdecode
  obtain ⟨⟨version, s₂⟩, hversion, hdecode⟩ := bind_eq_ok.1 hdecode
  obtain ⟨⟨unitType, s₃⟩, htype, hdecode⟩ := bind_eq_ok.1 hdecode
  obtain ⟨⟨addressSize, s₄⟩, haddress, hdecode⟩ := bind_eq_ok.1 hdecode
  obtain ⟨⟨abbrevOffset, s₅⟩, -, hdecode⟩ := bind_eq_ok.1 hdecode
  obtain ⟨hheader, -⟩ := Prod.mk.inj (Except.ok.inj hdecode)
  subst hheader
  by_cases hsize : addressSize = 4
  · subst hsize
    obtain rfl := Except.ok.inj h
    refine ⟨wordAt_of_uint32 hlength, ?_⟩
    -- the cursor is behind the length, the version and the type
    have h₁ : s₁ = s.skip 4 := skip_of_uint32 hlength
    have h₂ : s₂ = s₁.skip 2 := skip_of_uint16 hversion
    have h₃ : s₃ = s₂.skip 1 := (front_of_uint8 htype).2
    have hfront := congrArg (·[0]?) (front_of_uint8 haddress).1
    have hat : s₃.rest[0]? = elfData[p + 7]? := by
      rw [h₃, h₂, h₁]
      exact List.getElem?_drop.trans List.getElem?_drop
    rw [byteAt, ← hat, hfront]
    rfl
  · have hexit : (if addressSize = 4 then pure _ else throw .exit
        : Proc CompileUnitHeader) = .ok header := h
    rw [if_neg hsize] at hexit
    cases hexit

section Walk

variable {files : FileSystem} {d : DebugSections}

/-- A unit that is read has its length in its first word. -/
theorem readUnit_bytes {offset : Nat} {info : UnitInfo}
    (h : readUnit d offset = .ok info) :
    ∃ unitLength, wordAt d.elfData offset = .ok unitLength
      ∧ info.compileUnitLen = 4 + unitLength
      ∧ byteAt d.elfData (offset + 7) = .ok 4#8 := by
  obtain ⟨⟨compileUnitLen, u, stream⟩, hopen, h⟩ := bind_eq_ok.1 h
  obtain ⟨⟨generated, s'⟩, -, h⟩ := bind_eq_ok.1 h
  obtain ⟨header, hheader, hopen⟩ := bind_eq_ok.1 hopen
  obtain ⟨abbrevTable, -, hopen⟩ := bind_eq_ok.1 hopen
  obtain ⟨rfl, -⟩ := Prod.mk.inj (Except.ok.inj hopen)
  obtain ⟨hlength, haddress⟩ := unitHeader_bytes hheader
  refine ⟨header.unitLength, hlength, ?_, haddress⟩
  cases hkept : generated.kept with
  | none => simp [hkept] at h
  | some root =>
      simp only [hkept] at h
      obtain ⟨scope, -, hinfo⟩ := bind_eq_ok.1 h
      exact (congrArg UnitInfo.compileUnitLen (Except.ok.inj hinfo)).symm

/-- A line program that is read has its length in its first word. -/
theorem lineNumberInfo_bytes {u : CompileUnit} {place : Nat}
    {info : LineNumberInfo}
    (h : LineNumberInfo.new files u d.elfData place = .ok info) :
    ∃ unitLength, wordAt d.elfData place = .ok unitLength
      ∧ info.getLength = 4 + unitLength := by
  have hlen := (lineNumberInfo_new h).2
  obtain ⟨⟨unitLength, s₁⟩, hlength, -⟩ := bind_eq_ok.1 h
  refine ⟨unitLength, wordAt_of_uint32 hlength, BitVec.eq_of_toNat_eq ?_⟩
  rw [hlen, programLength, hlength]

/-- A round moves the pointers on by sums of 32 bits. -/
theorem round_moves {offset line : Nat} {unit : ParsedUnit}
    (h : parseUnit files d offset line = .ok unit) :
    ∃ infoLength lineLength, wordAt d.elfData offset = .ok infoLength
      ∧ wordAt d.elfData line = .ok lineLength
      ∧ unit.unit.getDebugInfoLength = (4 + infoLength).toNat
      ∧ unit.unit.getDebugLineLength = (4 + lineLength).toNat
      ∧ byteAt d.elfData (offset + 7) = .ok 4#8 := by
  obtain ⟨info, debugLine, hread, hline, rfl⟩ := parseUnit_eq_ok.1 h
  obtain ⟨infoLength, hinfo, hlen, haddress⟩ := readUnit_bytes hread
  obtain ⟨lineLength, hword, hlength⟩ := lineNumberInfo_bytes hline
  exact ⟨infoLength, lineLength, hinfo, hword, congrArg BitVec.toNat hlen,
    congrArg BitVec.toNat hlength, haddress⟩

/-- The sum is exact below the last four lengths. -/
theorem toNat_four_add (v : U32) :
    (4 + v).toNat = 4 + v.toNat ↔ v.toNat < 2 ^ 32 - 4 := by
  have hv := v.isLt
  rw [BitVec.toNat_add]
  show (4 + v.toNat) % 2 ^ 32 = 4 + v.toNat ↔ _
  omega

-- ================================================================ the walk

/-- After so many rounds the pointers of the walk are here. -/
inductive Reaches (files : FileSystem) (d : DebugSections) :
    Nat → Nat → Nat → Prop
  | start : Reaches files d 0 d.debugInfoStart d.debugLineStart
  | round {n offset line : Nat} {unit : ParsedUnit}
      (h : Reaches files d n offset line)
      (hmore : offset < d.debugInfoStart + d.debugInfoSize.toNat)
      (hunit : parseUnit files d offset line = .ok unit) :
      Reaches files d (n + 1) (offset + unit.unit.getDebugInfoLength)
        (line + unit.unit.getDebugLineLength)

/-- The walk is what the loop does: it ends behind the section, after as
many rounds as it has built units. -/
theorem reaches_of_unitLoop {fuel n offset line : Nat}
    {units : List ParsedUnit} (hreach : Reaches files d n offset line)
    (h : unitLoop files d fuel offset line = .ok units) :
    ∃ offset' line', Reaches files d (n + units.length) offset' line'
      ∧ d.debugInfoStart + d.debugInfoSize.toNat ≤ offset' := by
  induction fuel generalizing n offset line units with
  | zero => cases h
  | succ fuel ih =>
      by_cases hend : d.debugInfoStart + d.debugInfoSize.toNat ≤ offset
      · rw [unitLoop, if_pos hend] at h
        obtain rfl := Except.ok.inj h
        exact ⟨offset, line, hreach, hend⟩
      · have hmore := Nat.lt_of_not_le hend
        obtain ⟨unit, rest, hunit, hrest, rfl⟩ := (unitLoop_unit hmore).1 h
        obtain ⟨offset', line', hreach', hend'⟩ :=
          ih (hreach.round hmore hunit) hrest
        refine ⟨offset', line', ?_, hend'⟩
        rwa [List.length_cons, Nat.add_comm rest.length 1, ← Nat.add_assoc]

/-- The walk comes to a unit and reads it. -/
structure Round (files : FileSystem) (d : DebugSections)
    (n offset line : Nat) (unit : ParsedUnit) : Prop where
  reaches : Reaches files d n offset line
  more : offset < d.debugInfoStart + d.debugInfoSize.toNat
  read : parseUnit files d offset line = .ok unit

/-- Each round moves both pointers on by the length that lies there and
its four bytes, and there is at most one for every four bytes of the
section. -/
structure WalkAdvances (files : FileSystem) (d : DebugSections) :
    Prop where
  info : ∀ n offset line unit, Round files d n offset line unit →
    ∃ unitLength, wordAt d.elfData offset = .ok unitLength
      ∧ offset + unit.unit.getDebugInfoLength
        = offset + (4 + unitLength.toNat)
  line : ∀ n offset line unit, Round files d n offset line unit →
    ∃ unitLength, wordAt d.elfData line = .ok unitLength
      ∧ line + unit.unit.getDebugLineLength
        = line + (4 + unitLength.toNat)
  ends : ∀ n offset line, Reaches files d n offset line →
    n ≤ d.debugInfoSize.toNat / 4

/-- The lengths of the units and of the line programs that the walk comes
to are below 2^32 - 4, and a section with a unit has four bytes, one with
two units eight. -/
structure LengthsFit (files : FileSystem) (d : DebugSections) : Prop where
  lengths : ∀ n offset line unit, Round files d n offset line unit →
    ∀ infoLength lineLength, wordAt d.elfData offset = .ok infoLength →
      wordAt d.elfData line = .ok lineLength →
      infoLength.toNat < 2 ^ 32 - 4 ∧ lineLength.toNat < 2 ^ 32 - 4
  one : ∀ offset line, Reaches files d 1 offset line →
    4 ≤ d.debugInfoSize.toNat
  two : ∀ offset line, Reaches files d 2 offset line →
    8 ≤ d.debugInfoSize.toNat

/-- How far the walk is: six bytes on average, and the two that may be
missing follow in the next round, whose length is not 0 then. -/
def Far (d : DebugSections) (n offset : Nat) : Prop :=
  d.debugInfoStart + 6 * n + 2 * (n % 2) ≤ offset
    ∨ (d.debugInfoStart + 6 * n ≤ offset + 2 * (n % 2)
      ∧ ∀ v, wordAt d.elfData offset = .ok v → 4 ≤ v.toNat)

theorem Reaches.far {n offset line : Nat} (hfit : LengthsFit files d)
    (h : Reaches files d n offset line) : Far d n offset := by
  induction h with
  | start => exact .inl (by omega)
  | @round n offset line unit h hmore hunit ih =>
      obtain ⟨infoLength, lineLength, hinfo, hline, hmoves, -, haddress⟩ :=
        round_moves hunit
      have hshort := (hfit.lengths n offset line unit ⟨h, hmore, hunit⟩
        infoLength lineLength hinfo hline).1
      rw [hmoves, (toNat_four_add infoLength).2 hshort]
      by_cases hsmall : infoLength.toNat < 4
      · -- the address size is a byte of the next length
        rcases ih with hfar | ⟨-, hlength⟩
        · refine .inr ⟨by omega, fun v hv => ?_⟩
          have hbyte := byteAt_of_wordAt hv
            (show 3 - infoLength.toNat < 4 by omega)
          have hplace : offset + (4 + infoLength.toNat)
              + (3 - infoLength.toNat) = offset + 7 := by omega
          rw [hplace, haddress] at hbyte
          have hle := toNat_byteOf_le v (3 - infoLength.toNat)
          rw [← Except.ok.inj hbyte] at hle
          exact hle
        · have := hlength infoLength hinfo
          omega
      · refine .inl ?_
        rcases ih with hfar | ⟨hfar, -⟩
        · omega
        · omega

theorem rounds_le {n offset line : Nat} (hfit : LengthsFit files d)
    (h : Reaches files d n offset line) : n ≤ d.debugInfoSize.toNat / 4 := by
  cases h with
  | start => exact Nat.zero_le _
  | @round n offset line unit h hmore hunit =>
      have hnext := h.round hmore hunit
      match n with
      | 0 =>
          have := hfit.one _ _ hnext
          omega
      | 1 =>
          have := hfit.two _ _ hnext
          omega
      | n + 2 =>
          rcases h.far hfit with hfar | ⟨hfar, -⟩
          · omega
          · omega

/-- The walk advances exactly when no length comes within four bytes of
2^32 and the section has the four bytes of each of the first two
lengths. -/
theorem walk_advances_iff (files : FileSystem) (d : DebugSections) :
    WalkAdvances files d ↔ LengthsFit files d := by
  constructor
  · intro hwalk
    constructor
    case lengths =>
      intro n offset line unit hround infoLength lineLength hinfo hline
      obtain ⟨a, b, ha, hb, hmoves, hmoves', -⟩ := round_moves hround.read
      obtain ⟨v, hv, hnext⟩ := hwalk.info n offset line unit hround
      obtain ⟨w, hw, hnext'⟩ := hwalk.line n offset line unit hround
      rw [hinfo] at ha hv
      rw [hline] at hb hw
      obtain rfl := Except.ok.inj ha
      obtain rfl := Except.ok.inj hv
      obtain rfl := Except.ok.inj hb
      obtain rfl := Except.ok.inj hw
      rw [hmoves] at hnext
      rw [hmoves'] at hnext'
      exact ⟨(toNat_four_add infoLength).1 (by omega),
        (toNat_four_add lineLength).1 (by omega)⟩
    case one =>
      intro offset line h
      have := hwalk.ends 1 offset line h
      omega
    case two =>
      intro offset line h
      have := hwalk.ends 2 offset line h
      omega
  · intro hfit
    constructor
    case info =>
      intro n offset line unit hround
      obtain ⟨a, b, ha, hb, hmoves, -⟩ := round_moves hround.read
      have hshort := (hfit.lengths n offset line unit hround a b ha hb).1
      exact ⟨a, ha, by rw [hmoves, (toNat_four_add a).2 hshort]⟩
    case line =>
      intro n offset line unit hround
      obtain ⟨a, b, ha, hb, -, hmoves, -⟩ := round_moves hround.read
      have hshort := (hfit.lengths n offset line unit hround a b ha hb).2
      exact ⟨b, hb, by rw [hmoves, (toNat_four_add b).2 hshort]⟩
    case ends =>
      intro n offset line h
      exact rounds_le hfit h

end Walk

-- ========================================================== a stuck walk

/-- A unit and a line program whose lengths are 2^32 - 4. -/
def stuckUnit : DebugSections where
  elfData := [0xfc, 0xff, 0xff, 0xff] ++ (unitBytes 0).drop 4
    ++ [1, 0x11, 0, 0x10, 0x17, 0, 0, 0]
    ++ [0xfc, 0xff, 0xff, 0xff] ++ (lineProgramBytes 0x61).drop 4
  debugInfoStart := 0
  debugInfoSize := 17
  debugAbbrevStart := 17
  debugStrStart := 0
  debugLineStrStart := 0
  debugLineStart := 25
  debugFrameStart := 0
  debugFrameSize := 0

/-- The unit is built, and both pointers stay where they are. -/
theorem stuckUnit_round : ∃ unit,
    parseUnit noFiles stuckUnit 0 25 = .ok unit
      ∧ unit.unit.getDebugInfoLength = 0
      ∧ unit.unit.getDebugLineLength = 0 := by
  have hround : (parseUnit noFiles stuckUnit 0 25).map (fun unit =>
      (unit.unit.getDebugInfoLength, unit.unit.getDebugLineLength))
        = .ok (0, 0) := by
    decide +kernel
  obtain ⟨unit, hunit, hlengths⟩ := map_eq_ok.1 hround
  obtain ⟨hinfo, hline⟩ := Prod.mk.inj hlengths
  exact ⟨unit, hunit, hinfo, hline⟩

/-- So the walk never ends. -/
theorem unit_walk_stuck :
    ¬ WalkAdvances noFiles stuckUnit
      ∧ ∀ n, Reaches noFiles stuckUnit n 0 25 := by
  obtain ⟨unit, hunit, hinfo, hline⟩ := stuckUnit_round
  have hreach : ∀ n, Reaches noFiles stuckUnit n 0 25 := by
    intro n
    induction n with
    | zero => exact .start
    | succ n ih =>
        have hnext := ih.round (by decide) hunit
        rwa [hinfo, hline] at hnext
  refine ⟨fun hwalk => ?_, hreach⟩
  have hbound := hwalk.ends 5 0 25 (hreach 5)
  exact absurd hbound (by decide)

end T89Emu.Dwarf
