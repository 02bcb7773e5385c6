/-
The line of a pc.

The lookup is one for rows, not for ranges: it finds the first row whose
address is the pc. Where the rows at the pc are rows of the sequence that
contains it, and have one line, that is the line in force; between two
rows the answer is 0, which the debugger takes for "no new line"
(`line_lookup`).
-/
import T89Emu.Dwarf.Proofs.LineProgram
import T89Emu.Lib.Dwarf.LineTable

namespace T89Emu.Dwarf

open Cpp LineTable

/-- Sequences of the rows of a line table. -/
abbrev LineSequence := Sequence fun row : LineEntry => row.address.toNat

/-- The line in force at a pc, 0 outside of the sequences. -/
def lineInForce (qs : List LineSequence) (pc : U32) : U32 :=
  match rowInForce qs pc.toNat with
  | some row => row.line
  | none => 0

variable {info : LineNumberInfo} {qs : List LineSequence} {pc : U32}

/-- Without a row at the pc there is no line. -/
theorem no_line (hrows : ∀ row ∈ info.lineMatrix, row.address ≠ pc) :
    info.getLineNumberAtPc pc = 0 := by
  have hnone : info.getLineEntryAtPc pc = none :=
    List.find?_eq_none.2 fun row hrow => by simpa using hrows row hrow
  rw [LineNumberInfo.getLineNumberAtPc, hnone]

/-- With rows of one line it is that. -/
theorem only_line {row : LineEntry} (hrow : row ∈ info.lineMatrix)
    (hpc : row.address = pc)
    (hsame : ∀ row' ∈ info.lineMatrix, row'.address = pc →
      row'.line = row.line) :
    info.getLineNumberAtPc pc = row.line := by
  rw [LineNumberInfo.getLineNumberAtPc]
  cases hfind : info.getLineEntryAtPc pc with
  | none =>
      exact absurd (decide_eq_true hpc) (List.find?_eq_none.1 hfind row hrow)
  | some row' =>
      have hfound := List.find?_some hfind
      exact hsame row' (List.mem_of_find?_eq_some hfind)
        (of_decide_eq_true hfound)

/-- The rows at a pc where no sequence ends are rows of the one sequence
that contains it. -/
theorem mem_rows_at (hdisjoint : LineTable.Disjoint qs)
    (hopen : ∀ q ∈ qs, q.stop.address ≠ pc) {q : LineSequence}
    (hq : q ∈ qs) (hcovers : q.Covers pc.toNat) {row : LineEntry}
    (hrow : row ∈ table qs) (hpc : row.address = pc) : row ∈ q.rows := by
  obtain ⟨q', hq', hcovers', hrow⟩ := mem_rows_of_mem_table
    (fun q hq h => hopen q hq (BitVec.eq_of_toNat_eq h)) hrow
    (congrArg BitVec.toNat hpc)
  exact hdisjoint.eq hq' hq hcovers' hcovers ▸ hrow

/-- At a pc where no sequence ends, the lookup answers 0 outside of the
sequences and between the rows of a sequence; at a row it is the line in
force, if the rows of the sequence that are there have one line. -/
theorem line_lookup (hmatrix : info.lineMatrix = table qs)
    (hdisjoint : LineTable.Disjoint qs)
    (hopen : ∀ q ∈ qs, q.stop.address ≠ pc) :
    ((∀ q ∈ qs, ¬ q.Covers pc.toNat) →
        info.getLineNumberAtPc pc = 0 ∧ lineInForce qs pc = 0)
      ∧ ∀ q ∈ qs, q.Covers pc.toNat →
        ((∀ row ∈ q.rows, row.address ≠ pc) →
          info.getLineNumberAtPc pc = 0)
        ∧ ∀ row ∈ q.rows, row.address = pc →
          (∀ row' ∈ q.rows, row'.address = pc → row'.line = row.line) →
          info.getLineNumberAtPc pc = lineInForce qs pc := by
  refine ⟨fun hnone => ⟨no_line fun row hrow hpc => ?_, ?_⟩,
    fun q hq hcovers => ⟨fun hbetween => no_line fun row hrow hpc => ?_,
      fun row hrow hpc hsame => ?_⟩⟩
  · rw [hmatrix] at hrow
    obtain ⟨q, hq, hcovers, -⟩ := mem_rows_of_mem_table
      (fun q hq h => hopen q hq (BitVec.eq_of_toNat_eq h)) hrow
      (congrArg BitVec.toNat hpc)
    exact hnone q hq hcovers
  · rw [lineInForce, rowInForce_of_not_covers hnone]
  · rw [hmatrix] at hrow
    exact hbetween row (mem_rows_at hdisjoint hopen hq hcovers hrow hpc) hpc
  · have hforce : lineInForce qs pc = row.line := by
      obtain ⟨row', hrow', hlast, haddress⟩ := Sequence.inForce_of_mem hrow
      rw [hpc] at hlast haddress
      rw [lineInForce, rowInForce_of_covers hdisjoint hq hcovers, hlast]
      exact hsame row' hrow' (BitVec.eq_of_toNat_eq haddress)
    rw [hforce]
    refine only_line ?_ hpc fun row' hrow' hpc' => ?_
    · rw [hmatrix]
      exact mem_table.2 ⟨q, hq, .inl hrow⟩
    · rw [hmatrix] at hrow'
      exact hsame row' (mem_rows_at hdisjoint hopen hq hcovers hrow' hpc')
        hpc'

/-- A row of a function. -/
def lineRow (address line : U32) : LineEntry :=
  ⟨address, line, 0, 1, true, false, false⟩

/-- A function of eight bytes, in two lines. -/
def firstFunction : LineSequence where
  rows := [lineRow 0x10 5, lineRow 0x14 6]
  stop := lineRow 0x18 6
  sorted := by decide

/-- The function behind it. -/
def secondFunction : LineSequence where
  rows := [lineRow 0x18 9]
  stop := lineRow 0x20 9
  sorted := by decide

/-- The information of a unit with these rows. -/
def infoOf (qs : List LineSequence) : LineNumberInfo :=
  ⟨0, smallHeader, table qs, []⟩

/-- Two bytes into a row of line 5 the lookup answers 0. -/
theorem line_between_rows_is_zero :
    (infoOf [firstFunction]).lineMatrix = table [firstFunction]
      ∧ LineTable.Disjoint [firstFunction]
      ∧ (infoOf [firstFunction]).getLineNumberAtPc 0x12 = 0
      ∧ lineInForce [firstFunction] 0x12 = 5 :=
  ⟨rfl, List.pairwise_singleton .., by decide, by decide⟩

/-- At a row it is the line in force. -/
theorem line_at_row :
    (infoOf [firstFunction, secondFunction]).getLineNumberAtPc 0x14
      = lineInForce [firstFunction, secondFunction] 0x14 := by
  have hdisjoint : LineTable.Disjoint [firstFunction, secondFunction] := by
    refine List.pairwise_pair.2 fun pc hpc => ?_
    obtain ⟨⟨-, hstop⟩, ⟨row, hrow, hle⟩, -⟩ := hpc
    obtain rfl := Option.some.inj hrow
    exact absurd (Nat.lt_of_le_of_lt hle hstop) (by decide)
  have hmatrix : (infoOf [firstFunction, secondFunction]).lineMatrix
      = table [firstFunction, secondFunction] := rfl
  have hopen : ∀ q ∈ [firstFunction, secondFunction],
      q.stop.address ≠ 0x14 := by
    decide
  obtain ⟨-, hat⟩ := (line_lookup hmatrix hdisjoint hopen).2 firstFunction
    List.mem_cons_self (by decide)
  exact hat (lineRow 0x14 6) (by decide) rfl (by decide)

end T89Emu.Dwarf
