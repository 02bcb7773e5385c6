/-
The compile unit at a pc.

`getCompileUnitAtPc` runs down from the last unit with an index that has
no sign. Below index 0 the largest one follows, and no vector is that
long: a search that no unit ends leaves the vector (`search_run`), so
that neither the null pointer behind the loop nor the line 0 of a pc
without a unit is ever reached.
-/
import T89Emu.Dwarf.DwarfParser

namespace T89Emu.Dwarf

open Cpp

/-- The root scope of the unit contains the pc. -/
abbrev ParsedUnit.Contains (unit : ParsedUnit) (pc : U32) : Prop :=
  unit.rootScope.isPcInRange pc = true

namespace DwarfParser

variable {p : DwarfParser} {pc : U32}

/-- The last unit that contains the pc. -/
def lastUnit (p : DwarfParser) (pc : U32) : Option ParsedUnit :=
  (p.compileUnits.filter (·.Contains pc)).getLast?

theorem lastUnit_eq_none :
    p.lastUnit pc = none ↔ ∀ unit ∈ p.compileUnits, ¬ unit.Contains pc := by
  simp [lastUnit]

-- ================================================================ the loop

/-- A round looks at the unit at the index, whichever that is. -/
theorem compileUnitLoop_round (fuel : Nat) (i : U64) :
    p.compileUnitLoop pc (fuel + 1) i
      = match p.compileUnits[i.toNat]? with
        | none => .error (.undefined .outOfBounds)
        | some unit =>
            if unit.Contains pc then .ok (some unit)
            else p.compileUnitLoop pc fuel (i - 1) := by
  rw [compileUnitLoop, if_pos (show (0 : U64) ≤ i from Nat.zero_le _)]
  cases p.compileUnits[i.toNat]? with
  | none => rfl
  | some unit => rfl

/-- What the loop delivers is a unit that contains the pc. -/
theorem contains_of_loop {fuel : Nat} {i : U64} {r : Option ParsedUnit}
    (h : p.compileUnitLoop pc fuel i = .ok r) :
    ∃ unit ∈ p.compileUnits, unit.Contains pc := by
  induction fuel generalizing i with
  | zero => cases h
  | succ fuel ih =>
      rw [compileUnitLoop_round] at h
      cases hunit : p.compileUnits[i.toNat]? with
      | none =>
          rw [hunit] at h
          cases h
      | some unit =>
          rw [hunit] at h
          dsimp only at h
          split at h
          case isTrue hin => exact ⟨unit, List.mem_of_getElem? hunit, hin⟩
          case isFalse => exact ih h

/-- The rounds over the first `n` units, from the last of them down: the
last one that contains the pc ends the loop, and without one the largest
index follows. -/
theorem compileUnitLoop_down (hsize : p.compileUnits.length < 2 ^ 64)
    (fuel : Nat) {n : Nat} (hn : n ≤ p.compileUnits.length) :
    p.compileUnitLoop pc (n + fuel) (BitVec.ofNat 64 n - 1)
      = match ((p.compileUnits.take n).filter (·.Contains pc)).getLast? with
        | some unit => .ok (some unit)
        | none => p.compileUnitLoop pc fuel (0 - 1) := by
  induction n with
  | zero =>
      rw [Nat.zero_add]
      rfl
  | succ n ih =>
      have hlt : n < p.compileUnits.length := hn
      have hindex : BitVec.ofNat 64 (n + 1) - 1 = BitVec.ofNat 64 n := by
        rw [BitVec.ofNat_add]
        exact BitVec.add_sub_cancel ..
      have hunit : p.compileUnits[(BitVec.ofNat 64 n).toNat]?
          = some p.compileUnits[n] := by
        rw [BitVec.toNat_ofNat, Nat.mod_eq_of_lt (by omega)]
        exact List.getElem?_eq_getElem hlt
      rw [hindex, Nat.succ_add, compileUnitLoop_round, hunit,
        List.take_succ_eq_append_getElem hlt, List.filter_append]
      by_cases hin : p.compileUnits[n].Contains pc
      · rw [List.filter_cons_of_pos (by simpa using hin), List.filter_nil,
          List.getLast?_concat]
        exact if_pos hin
      · rw [List.filter_cons_of_neg (by simpa using hin), List.filter_nil,
          List.append_nil]
        exact (if_neg hin).trans (ih (Nat.le_of_lt hlt))

/-- The search from the last unit on: the unit it is meant to find, or a
read behind the end of the vector. -/
theorem search_run (hsize : p.compileUnits.length < 2 ^ 64) (fuel : Nat) :
    p.compileUnitLoop pc (p.compileUnits.length + (fuel + 1))
        (BitVec.ofNat 64 p.compileUnits.length - 1)
      = match p.lastUnit pc with
        | some unit => .ok (some unit)
        | none => .error (.undefined .outOfBounds) := by
  have hend : p.compileUnits[((0 : U64) - 1).toNat]? = none :=
    List.getElem?_eq_none (Nat.le_of_lt_succ hsize)
  rw [compileUnitLoop_down hsize _ (Nat.le_refl _), List.take_length,
    compileUnitLoop_round, hend]
  rfl

-- ============================================================== the answers

/-- `getCompileUnitAtPc` answers where a unit contains the pc, and only
there. -/
theorem getCompileUnitAtPc_eq :
    p.getCompileUnitAtPc pc
      = match p.lastUnit pc with
        | some unit => .ok unit
        | none => .error (.undefined .outOfBounds) := by
  have hfind : p.compileUnits.reverse.find? (·.rootScope.isPcInRange pc)
      = p.lastUnit pc := by
    rw [lastUnit, List.getLast?_eq_head?_reverse, ← List.filter_reverse,
      List.head?_filter]
    simp
  rw [getCompileUnitAtPc, hfind]
  cases p.lastUnit pc with
  | none => rfl
  | some unit => rfl

/-- It is the search, and its null pointer is never seen. -/
theorem getCompileUnitAtPc_eq_search
    (hsize : p.compileUnits.length < 2 ^ 64) (fuel : Nat) :
    (p.getCompileUnitAtPc pc).map some
      = p.compileUnitLoop pc (p.compileUnits.length + (fuel + 1))
          (BitVec.ofNat 64 p.compileUnits.length - 1) := by
  rw [search_run hsize, getCompileUnitAtPc_eq]
  cases p.lastUnit pc with
  | none => rfl
  | some unit => rfl

theorem getLineNumberAtPc_eq :
    p.getLineNumberAtPc pc
      = match p.lastUnit pc with
        | some unit => .ok (unit.unit.debugLine.getLineNumberAtPc pc)
        | none => .error (.undefined .outOfBounds) := by
  rw [getLineNumberAtPc, getCompileUnitAtPc_eq]
  cases p.lastUnit pc with
  | none => rfl
  | some unit => rfl

/-- A pc has a line, be it 0, exactly when it is in a unit. -/
theorem getLineNumberAtPc_isOk :
    (∃ line, p.getLineNumberAtPc pc = .ok line)
      ↔ ∃ unit ∈ p.compileUnits, unit.Contains pc := by
  rw [getLineNumberAtPc_eq]
  cases hlast : p.lastUnit pc with
  | none => simpa using lastUnit_eq_none.1 hlast
  | some unit =>
      have hmem : unit ∈ p.compileUnits.filter (·.Contains pc) :=
        List.mem_of_getLast? hlast
      obtain ⟨hmem, hin⟩ := List.mem_filter.1 hmem
      exact iff_of_true ⟨_, rfl⟩ ⟨unit, hmem, by simpa using hin⟩

/-- The lookup at a pc is total: the loop ends and reads no unit that is
not there, its answer is the last unit that contains the pc or null, and
without a unit the line is 0. -/
structure LookupTotal (p : DwarfParser) (pc : U32) : Prop where
  search : ∃ fuel, p.compileUnitLoop pc fuel
    (BitVec.ofNat 64 p.compileUnits.length - 1) = .ok (p.lastUnit pc)
  line : p.lastUnit pc = none → p.getLineNumberAtPc pc = .ok 0

/-- The lookup is total exactly for the pcs that are in a unit. -/
theorem lookup_total_iff (p : DwarfParser) (pc : U32)
    (hsize : p.compileUnits.length < 2 ^ 64) :
    p.LookupTotal pc ↔ ∃ unit ∈ p.compileUnits, unit.Contains pc := by
  constructor
  · rintro ⟨⟨fuel, hsearch⟩, -⟩
    exact contains_of_loop hsearch
  · rintro ⟨unit, hmem, hin⟩
    have hsome : p.lastUnit pc ≠ none := fun h =>
      lastUnit_eq_none.1 h unit hmem hin
    refine ⟨⟨_, (search_run hsize 0).trans ?_⟩, fun h => absurd h hsome⟩
    cases hlast : p.lastUnit pc with
    | none => exact absurd hlast hsome
    | some last => rfl

-- ============================================================= one unit

/-- A unit of four instructions without line entries, at the base of
ROM. -/
def onlyUnit : ParsedUnit where
  unit := {
    compileUnitLen := 13
    debugLine := {
      debugLineStart := 0
      infoHeader := ⟨0, 5, 4, 0, 0, 1, 1, 1, 0, 1, 1, [], 0, [], 0, [], 0, [],
        0, []⟩
      lineMatrix := []
      sourceInfo := [] }
    root := none }
  rootScope := .mk (.mk none 1 12 ⟨1, .compile_unit, false, []⟩ [] [])
    0x80000000 0x80000010 [] []

def oneUnit : DwarfParser := ⟨[onlyUnit], ⟨[], []⟩, []⟩

theorem pc_of_unit_found : oneUnit.LookupTotal 0x80000004 := by
  refine (lookup_total_iff oneUnit 0x80000004 (by decide)).2 ?_
  exact ⟨onlyUnit, List.mem_singleton_self _, by decide⟩

/-- The guest has jumped out of the unit, into video memory: the second
round reads behind the vector. -/
theorem stray_pc_leaves_units :
    ¬ oneUnit.LookupTotal 0x20000000
      ∧ oneUnit.compileUnitLoop 0x20000000 2 0
        = .error (.undefined .outOfBounds)
      ∧ oneUnit.getLineNumberAtPc 0x20000000
        = .error (.undefined .outOfBounds) := by
  refine ⟨fun h => ?_, rfl, rfl⟩
  have hline : oneUnit.getLineNumberAtPc 0x20000000 = .ok 0 :=
    h.line (by decide)
  cases hline

end DwarfParser

end T89Emu.Dwarf
