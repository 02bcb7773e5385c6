/-
The unwind table that `processInstructions` builds, against the one of the
DWARF standard.

A row keeps its location where it keeps the offset of the CFA, and both
advances add something else than DWARF's do. So a row begins where DWARF
has it only where the two happen to agree: `Placement` follows both
through a list of instructions (`follows_performAll`). Of the registers no
instruction sets the kind of a rule (`blank_performAll`): every rule in
every row is an undefined one.
-/
import T89Emu.Dwarf.Proofs.CallFrame
import T89Emu.Lib.Dwarf.UnwindTable
import T89Emu.Lib.Lockstep

namespace T89Emu.Dwarf

open Cpp Bytes CallFrame

-- ================================================================= blocks

/-- The block is these instructions; one of no bytes may be anywhere. -/
def Holds (start : Option (List U8)) (size : U64) (program : List Instr) :
    Prop :=
  size.toNat = (CallFrame.bytes program).length
    ∧ (program = []
      ∨ ∃ behind, start = some (CallFrame.bytes program ++ behind))

/-- A block that is held is carried, read as the common entry says. -/
theorem carries_of_holds (cie : CommonInfoEntry)
    {start : Option (List U8)} {size : U64} {program : List Instr}
    (h : Holds start size program) : Carries cie start size program := by
  obtain ⟨hsize, hstart⟩ := h
  intro t ht
  have heq : size = BitVec.ofNat 64 size.toNat := by simp
  rw [heq, processInstructions_eq start size.isLt]
  rcases hstart with rfl | ⟨behind, rfl⟩
  · have hzero : size.toNat = 0 := hsize
    rw [hzero, processLoop_end _ (by simp [DataStream.isStreamable]),
      if_pos (by simp)]
    rfl
  · rw [hsize]
    exact processLoop_run program ht rfl (readsAs_bytes program behind)
      (Nat.lt_succ_self _)

-- =================================================================== rows

/-- The rule of a register, as the code keeps it. -/
def IsRule (rule : RegRule) : CallFrame.Rule → Prop
  | .undefined => rule.cfiRule = .cfiUndefined
  | .offset distance =>
      rule.cfiRule = .cfiOffset ∧ rule.value = BitVec.ofInt 32 distance

/-- The row begins where this one does. -/
def BeginsAt (e : TableEntry) (row : UnwindRow) : Prop :=
  e.location = BitVec.ofNat 32 row.location

instance (e : TableEntry) (row : UnwindRow) : Decidable (BeginsAt e row) :=
  inferInstanceAs (Decidable (_ = _))

/-- The row is this one: its location, and the rules of the registers 0
to 31. -/
def IsUnwindRow (e : TableEntry) (row : UnwindRow) : Prop :=
  BeginsAt e row ∧ ∀ r : BitVec 5,
    IsRule (e.regRules (r.setWidth 8)) (row.rules (r.setWidth 6))

/-- The row has no rule for a register from 0 to 31. -/
def Unruled (row : UnwindRow) : Prop :=
  ∀ r : BitVec 5, row.rules (r.setWidth 6) = .undefined

instance (row : UnwindRow) : Decidable (Unruled row) :=
  inferInstanceAs (Decidable (∀ _ : BitVec 5, _ = _))

/-- No rule of the row is of a kind. -/
def Blank (e : TableEntry) : Prop :=
  ∀ r, (e.regRules r).cfiRule = .cfiUndefined

/-- A blank row is the table's exactly if it begins where that one does,
and that one has no rules. -/
theorem isUnwindRow_iff {e : TableEntry} (he : Blank e) (row : UnwindRow) :
    IsUnwindRow e row ↔ BeginsAt e row ∧ Unruled row := by
  refine and_congr_right fun _ => forall_congr' fun r => ?_
  cases hrule : row.rules (r.setWidth 6) with
  | undefined => exact iff_of_true (he _) rfl
  | offset distance =>
      refine iff_of_false (fun h => ?_) nofun
      have hkind := (he (r.setWidth 8)).symm.trans h.1
      cases hkind

-- ============================================================== the rules

variable {cie : CommonInfoEntry}

/-- All rows of the table, the last one too. -/
def VirtTable.all (t : VirtTable) : List TableEntry := t.rows ++ [t.back]

/-- The row in front is one of the rows. -/
theorem VirtTable.front_mem (t : VirtTable) : t.front ∈ t.all := by
  cases hrows : t.rows with
  | nil => simp [front, all, hrows]
  | cons e rows => simp [front, all, hrows]

/-- A rule of no kind leaves a row blank. -/
theorem blank_setRule {e : TableEntry} (he : Blank e) (reg : U8)
    {rule : RegRule} (hrule : rule.cfiRule = .cfiUndefined) :
    Blank (e.setRule reg rule) := by
  intro r
  show (if r = reg then rule else e.regRules r).cfiRule = .cfiUndefined
  split
  case isTrue => exact hrule
  case isFalse => exact he r

/-- No instruction gives a rule a kind: DW_CFA_offset sets its value only,
and what DW_CFA_restore copies is of no kind. -/
theorem blank_perform {t : VirtTable} (ht : ∀ e ∈ t.all, Blank e)
    (i : Instr) : ∀ e ∈ (perform cie t i).all, Blank e := by
  have hrows : ∀ e ∈ t.rows, Blank e :=
    fun e he => ht e (List.mem_append_left _ he)
  have hback : Blank t.back := ht _ (by simp [VirtTable.all])
  have hsnoc (es : List TableEntry) (hes : ∀ e ∈ es, Blank e)
      {back : TableEntry} (h : Blank back) : ∀ e ∈ es ++ [back], Blank e :=
    List.forall_mem_append.2 ⟨hes, by simpa using h⟩
  cases i with
  | nop => exact ht
  | advanceLoc delta => exact hsnoc _ ht hback
  | advanceLoc1 delta => exact hsnoc _ ht hback
  | defCfa register distance => exact hsnoc _ hrows hback
  | defCfaRegister register => exact hsnoc _ hrows hback
  | defCfaOffset distance => exact hsnoc _ hrows hback
  | offset register factored =>
      exact hsnoc _ hrows (blank_setRule hback _ (hback _))
  | restore register =>
      exact hsnoc _ hrows
        (blank_setRule hback _ (ht _ t.front_mem _))

/-- So no program ever gives a row a rule. -/
theorem blank_performAll {t : VirtTable} (ht : ∀ e ∈ t.all, Blank e)
    (program : List Instr) :
    ∀ e ∈ (performAll cie t program).all, Blank e := by
  induction program generalizing t with
  | nil => exact ht
  | cons i program ih => exact ih (blank_perform ht i)

-- ========================================================== the locations

/-- How far the rows lie where DWARF has them: the location that DWARF
has come to, whether all rows before the last one begin where they
should, and whether the last one does. -/
structure Placement where
  location : Nat
  finished : Bool
  current : Bool

namespace Placement

/-- A row that begins `distance` further on, the code adding `added`. -/
def advance (p : Placement) (distance added : Nat) : Placement :=
  ⟨p.location + distance, p.finished && p.current,
    decide (added ≡ distance [MOD 2 ^ 32])⟩

/-- The offset of the CFA takes the place of the location. -/
def overwrite (p : Placement) (offset : Nat) : Placement :=
  { p with current := decide (offset ≡ p.location [MOD 2 ^ 32]) }

def step (codeAlignment : Nat) (p : Placement) (i : Instr) : Placement :=
  match i with
  | .advanceLoc delta => p.advance (delta.toNat * codeAlignment)
      (codeAdvance codeAlignment i)
  | .advanceLoc1 delta => p.advance (delta.toNat * codeAlignment)
      (codeAdvance codeAlignment i)
  | .defCfa _ distance => p.overwrite distance.unsigned
  | .defCfaOffset distance => p.overwrite distance.unsigned
  | .nop | .defCfaRegister _ | .offset _ _ | .restore _ => p

def run (codeAlignment : Nat) (p : Placement) (program : List Instr) :
    Placement :=
  program.foldl (step codeAlignment) p

/-- The places of a program behind another one. -/
theorem run_append (codeAlignment : Nat) (p : Placement)
    (program program' : List Instr) :
    p.run codeAlignment (program ++ program')
      = (p.run codeAlignment program).run codeAlignment program' :=
  List.foldl_append

end Placement

/-- Every row begins where DWARF has it. -/
def Placed (codeAlignment location : Nat) (program : List Instr) : Prop :=
  let p := Placement.run codeAlignment ⟨location, true, true⟩ program
  p.finished = true ∧ p.current = true

instance (codeAlignment location : Nat) (program : List Instr) :
    Decidable (Placed codeAlignment location program) :=
  inferInstanceAs (Decidable (_ ∧ _))

/-- What the placement says of the code's table and of DWARF's. Of the
last row nothing is said once a row before it lies elsewhere. -/
structure Follows (t : VirtTable) (table : UnwindTable) (p : Placement) :
    Prop where
  location : table.back.location = p.location
  rows : List.Forall₂ BeginsAt t.rows table.rows ↔ p.finished = true
  back : p.finished = true →
    (BeginsAt t.back table.back ↔ p.current = true)

/-- All rows begin where they should exactly if those that are finished
do, and the last one does. -/
theorem Follows.all {t : VirtTable} {table : UnwindTable} {p : Placement}
    (h : Follows t table p) :
    List.Forall₂ BeginsAt t.all table.all
      ↔ p.finished = true ∧ p.current = true := by
  rw [VirtTable.all, UnwindTable.all, Lockstep.forall₂_snoc, h.rows]
  exact and_congr_right h.back

/-- An advance. -/
theorem Follows.advance {t : VirtTable} {table : UnwindTable}
    {p : Placement} (h : Follows t table p) (distance added : Nat) :
    Follows (t.advance (t.back.location + BitVec.ofNat 32 added))
      (table.advance distance) (p.advance distance added) where
  location := congrArg (· + distance) h.location
  rows := h.all.trans (Bool.and_eq_true _ _).symm.to_iff
  back hfinished := by
    obtain ⟨hrows, hcurrent⟩ := (Bool.and_eq_true _ _).mp hfinished
    have hback : t.back.location = BitVec.ofNat 32 table.back.location :=
      (h.back hrows).2 hcurrent
    show t.back.location + BitVec.ofNat 32 added
      = BitVec.ofNat 32 (table.back.location + distance) ↔ _
    rw [hback, BitVec.ofNat_add, BitVec.add_right_inj, ofNat_eq_iff]
    exact decide_eq_true_iff.symm

/-- A row whose location is overwritten. -/
theorem Follows.overwrite {t : VirtTable} {table : UnwindTable}
    {p : Placement} (h : Follows t table p) {e : TableEntry}
    {offset : Nat} (he : e.location = BitVec.ofNat 32 offset) :
    Follows ⟨t.rows, e⟩ table (p.overwrite offset) where
  location := h.location
  rows := h.rows
  back _ := by
    show e.location = BitVec.ofNat 32 table.back.location ↔ _
    rw [he, h.location, ofNat_eq_iff]
    exact decide_eq_true_iff.symm

/-- A row whose location stays, whatever its rules become. -/
theorem Follows.keep {t : VirtTable} {table : UnwindTable} {p : Placement}
    (h : Follows t table p) {e : TableEntry}
    (he : e.location = t.back.location) (rules : Rules) :
    Follows ⟨t.rows, e⟩
      { table with back := { table.back with rules := rules } } p where
  location := h.location
  rows := h.rows
  back hfinished := by
    show e.location = BitVec.ofNat 32 table.back.location ↔ _
    rw [he]
    exact h.back hfinished

/-- The factors of a common entry. -/
def factorsOf (cie : CommonInfoEntry) : Factors :=
  ⟨cie.codeAlignmentFactor.toNat, cie.dataAlignmentFactor.toInt⟩

/-- One instruction: whether the rows of the two tables still begin in the
same places is what the placement keeps track of. -/
theorem follows_perform {t : VirtTable} {table : UnwindTable}
    {p : Placement} (h : Follows t table p) (initial : Rules) (i : Instr) :
    Follows (perform cie t i) (table.exec (factorsOf cie) initial i)
      (p.step cie.codeAlignmentFactor.toNat i) := by
  cases i with
  | nop => exact h
  | advanceLoc delta =>
      have hlow : cie.codeAlignmentFactor.setWidth 32
          = BitVec.ofNat 32 cie.codeAlignmentFactor.toNat :=
        (BitVec.ofNat_toNat ..).symm
      rw [perform, advance_low delta hlow]
      exact h.advance _ _
  | advanceLoc1 delta =>
      rw [perform, ← BitVec.ofNat_toNat]
      exact h.advance _ _
  | defCfa register distance => exact h.overwrite (ulebValue_low distance)
  | defCfaRegister register => exact h.keep (by rfl) table.back.rules
  | defCfaOffset distance => exact h.overwrite (ulebValue_low distance)
  | offset register factored => exact h.keep (by rfl) _
  | restore register => exact h.keep (by rfl) _

/-- A whole program, by induction on the instructions. -/
theorem follows_performAll {t : VirtTable} {table : UnwindTable}
    {p : Placement} (h : Follows t table p) (initial : Rules)
    (program : List Instr) :
    Follows (performAll cie t program)
      (table.execAll (factorsOf cie) initial program)
      (p.run cie.codeAlignmentFactor.toNat program) := by
  induction program generalizing t table p with
  | nil => exact h
  | cons i program ih => exact ih (follows_perform h initial i)

-- ================================================================== table

variable {info : CallFrameInfo} {l1 : U32} {fde : FrameDescriptEntry}

/-- The rows of the table that the instructions leave. -/
theorem performAll_isUnwindTable (cie : CommonInfoEntry) (location : U32)
    (initial program : List Instr) :
    let t := performAll cie
      ⟨[], TableEntry.initial.setLocation location⟩ (initial ++ program)
    let table := unwindTable (factorsOf cie) location.toNat initial program
    List.Forall₂ IsUnwindRow t.all table.all
      ↔ Placed cie.codeAlignmentFactor.toNat location.toNat
          (initial ++ program)
        ∧ ∀ row ∈ table.all, Unruled row := by
  intro t table
  let first : VirtTable := ⟨[], TableEntry.initial.setLocation location⟩
  have hblank : ∀ e ∈ t.all, Blank e :=
    blank_performAll (t := first) (by simp [VirtTable.all, Blank, first,
      TableEntry.initial, TableEntry.setLocation]) _
  have hlocation : location = BitVec.ofNat 32 location.toNat := by simp
  have hfirst : Follows first (UnwindTable.first location.toNat)
      ⟨location.toNat, true, true⟩ :=
    ⟨rfl, iff_of_true .nil rfl, fun _ => iff_of_true hlocation rfl⟩
  have hfollows : Follows t table
      (Placement.run cie.codeAlignmentFactor.toNat
        ⟨location.toNat, true, true⟩ (initial ++ program)) := by
    rw [show t = _ from performAll_append initial program,
      Placement.run_append]
    exact follows_performAll
      (follows_performAll hfirst Rules.undefined initial) _ program
  rw [Lockstep.forall₂_split fun e he => isUnwindRow_iff (hblank e he),
    hfollows.all]
  rfl

/-- The table is DWARF's just when the operands are readable, every row
begins where DWARF has it, and no row of DWARF's has a rule for a register
from 0 to 31. -/
theorem unwindTable_iff {initial program : List Instr}
    (hfde : info.findFde l1 = some fde)
    (hcie : info.cies.lookup (fde.ciePointer.setWidth 64) = some cie)
    (hinitial : Holds cie.initialInstructions cie.instructionsBlockSize
      initial)
    (hprogram : Holds fde.instructions fde.instructionsBlockSize program) :
    let table := unwindTable (factorsOf cie) fde.initialLocation.toNat
      initial program
    (∃ t, info.generateVirtTable l1 = .ok (some t)
        ∧ t.rows.length = (initial ++ program).countP (·.isAdvance)
        ∧ List.Forall₂ IsUnwindRow t.all table.all)
      ↔ (∀ i ∈ initial ++ program, Defined i)
        ∧ Placed cie.codeAlignmentFactor.toNat fde.initialLocation.toNat
          (initial ++ program)
        ∧ ∀ row ∈ table.all, Unruled row := by
  intro table
  have hrun := generateVirtTable_carries hfde hcie
    (carries_of_holds cie hinitial) (carries_of_holds cie hprogram)
  have hrows := performAll_isUnwindTable cie fde.initialLocation initial
    program
  constructor
  · rintro ⟨t, ht, -, htable⟩
    rw [hrun] at ht
    split at ht
    case isTrue hdef =>
        obtain rfl := Option.some.inj (Except.ok.inj ht)
        exact ⟨hdef, hrows.1 htable⟩
    case isFalse => cases ht
  · rintro ⟨hdef, hplaced⟩
    rw [if_pos hdef] at hrun
    have htable := hrows.2 hplaced
    have hlength := htable.length_eq
    rw [length_unwindTable, VirtTable.all, List.length_append] at hlength
    refine ⟨_, hrun, ?_, htable⟩
    simp only [List.length_singleton] at hlength
    omega

/-- A common entry without instructions, with a code alignment of 1 and a
data alignment of -4. -/
def commonEntry : CommonInfoEntry :=
  ⟨0, 0xffffffff, 1, [], 1, -4, 1, none, 0⟩

/-- A frame entry of it for sixteen bytes. -/
def unwindEntry (program : List Instr) : FrameDescriptEntry :=
  ⟨0, 0, 0x80000000, 16, some (CallFrame.bytes program),
    BitVec.ofNat 64 (CallFrame.bytes program).length⟩

def unwindInfo (program : List Instr) : CallFrameInfo :=
  ⟨[(0, commonEntry)], [unwindEntry program]⟩

/-- The entries of the example hold their programs. -/
theorem holds_commonEntry : Holds commonEntry.initialInstructions
    commonEntry.instructionsBlockSize [] :=
  ⟨rfl, .inl rfl⟩

/-- The frame entry holds any program that fits. -/
theorem holds_unwindEntry (program : List Instr)
    (h : (CallFrame.bytes program).length < 2 ^ 64) :
    Holds (unwindEntry program).instructions
      (unwindEntry program).instructionsBlockSize program :=
  ⟨(BitVec.toNat_ofNat ..).trans (Nat.mod_eq_of_lt h),
    .inr ⟨[], congrArg some (List.append_nil _).symm⟩⟩

/-- A frame without rules that advances by bytes twice has three rows. -/
theorem advances_unwound :
    let program := [Instr.advanceLoc1 4, .restore 8, .advanceLoc1 4]
    ∃ t, (unwindInfo program).generateVirtTable 0x80000000 = .ok (some t)
      ∧ t.rows.length = 2
      ∧ List.Forall₂ IsUnwindRow t.all
        (unwindTable (factorsOf commonEntry) 0x80000000 [] program).all :=
  let program := [Instr.advanceLoc1 4, .restore 8, .advanceLoc1 4]
  (unwindTable_iff rfl rfl holds_commonEntry
    (holds_unwindEntry program (by decide))).2
    ⟨by decide, by decide, by decide⟩

/-- An advance by two bytes from 80000000 makes a row for 80000042. -/
theorem advance_misplaced :
    let program := [Instr.advanceLoc 2, .offset 8 (.single 2)]
    ¬ ∃ t, (unwindInfo program).generateVirtTable 0x80000000 = .ok (some t)
      ∧ t.rows.length = 1
      ∧ List.Forall₂ IsUnwindRow t.all
        (unwindTable (factorsOf commonEntry) 0x80000000 [] program).all := by
  rintro program ⟨t, ht, -, hrows⟩
  have hrun : (unwindInfo program).generateVirtTable 0x80000000 = _ :=
    generateVirtTable_carries rfl rfl
      (carries_of_holds commonEntry holds_commonEntry)
      (carries_of_holds commonEntry (holds_unwindEntry program (by decide)))
  rw [if_pos (by decide), ht] at hrun
  obtain rfl := Option.some.inj (Except.ok.inj hrun)
  cases hrows with
  | cons _ hrows =>
      cases hrows with
      | cons hrow _ => exact absurd hrow.1 (by decide)

end T89Emu.Dwarf
