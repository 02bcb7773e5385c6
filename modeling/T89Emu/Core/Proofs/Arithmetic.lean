/-
Signed comparison and register shifts.

The ALU and the next-pc unit both take the top bit of the wrapped
difference for the sign of the difference. It is that sign exactly when
the difference of the signed numbers is itself a 32-bit signed number
(`msb_sub_iff`), so the two agree with the signed order there and
nowhere else.

The ALU shifts by its second operand as it comes. For counts below 32
that is the shift of the instruction set, the arithmetic one included
(`arithmetic_shift`); from 32 on it is undefined. The immediate
generator cuts the count of the immediate shifts to five bits, the
register path does not.
-/
import Mathlib.Data.Int.Init
import T89Emu.Core.Proofs.Decode

namespace T89Emu

open Bytes Cpp Run

variable {L : Layout}

-- ======================================================= the top bit

/-- The top bit, moved to the bottom. -/
theorem shiftRight_top (v : U32) :
    v >>> 31 = if v.msb = true then 1 else 0 := by
  apply BitVec.eq_of_toNat_eq
  rw [BitVec.toNat_ushiftRight, BitVec.msb_eq_decide, Nat.shiftRight_eq_div_pow]
  have := v.isLt
  split
  · next h =>
    rw [decide_eq_true_eq] at h
    show v.toNat / 2 ^ 31 = 1
    omega
  · next h =>
    rw [decide_eq_true_eq] at h
    show v.toNat / 2 ^ 31 = 0
    omega

/-- The difference of the signed numbers is a 32-bit signed number. -/
def DifferenceFits (A B : U32) : Prop :=
  -2 ^ 31 ≤ A.toInt - B.toInt ∧ A.toInt - B.toInt < 2 ^ 31

instance (A B : U32) : Decidable (DifferenceFits A B) :=
  inferInstanceAs (Decidable (_ ∧ _))

/-- The top bit of the wrapped difference is its sign exactly when the
difference fits. -/
theorem msb_sub_iff (A B : U32) :
    ((A - B).msb = true ↔ A.toInt < B.toInt) ↔ DifferenceFits A B := by
  have hA := A.toInt_lt
  have hA' := A.le_toInt
  have hB := B.toInt_lt
  have hB' := B.le_toInt
  rw [BitVec.msb_eq_toInt, decide_eq_true_eq, BitVec.toInt_sub]
  unfold DifferenceFits
  rw [Int.bmod_def]
  split
  · omega
  · omega

-- ================================================== signed comparison

/-- Everything the core derives from a signed comparison of `A` and `B`
is right: SLT of the ALU, BLT and BGE of the next-pc unit with the
address it goes to, and the instructions SLT and SLTI. -/
structure ComparesSigned (A B : U32) : Prop where
  alu : Alu.execute A B .SLT = .ok (if A.toInt < B.toInt then 1 else 0)
  blt : NextPc.branchAlu A B 0b100 = decide (A.toInt < B.toInt)
  bge : NextPc.branchAlu A B 0b101 = decide (A.toInt ≥ B.toInt)
  bltNext : ∀ pc offset mepc,
    (NextPc.calculateNextPc pc offset .BTYPE 0b100 A B mepc).2
      = if A.toInt < B.toInt then pc + offset else pc + 4
  bgeNext : ∀ pc offset mepc,
    (NextPc.calculateNextPc pc offset .BTYPE 0b101 A B mepc).2
      = if A.toInt ≥ B.toInt then pc + offset else pc + 4
  instructions : ∀ (L : Layout) (s : Mcu L) (w : U32), s.Fetches w →
    funct3 w = 0b010 → s.rf.read (rs1 w) = A →
    (opcodeOf w = .RTYPE ∧ s.rf.read (rs2 w) = B
      ∨ opcodeOf w = .ITYPE ∧ ImmediateGenerator.getImmediate w = B) →
    ∃ code t, s.executeInstruction = .ok (code, t)
      ∧ t.rf = s.rf.write (if A.toInt < B.toInt then 1 else 0) (rd w)

/-- What the units answer. -/
theorem execute_slt (A B : U32) :
    Alu.execute A B .SLT
      = .ok (if (A - B).msb = true then 1 else 0) := by
  unfold Alu.execute
  dsimp only
  rw [shiftRight_top]
  split
  · rfl
  · rfl

theorem branchAlu_blt (A B : U32) :
    NextPc.branchAlu A B 0b100 = (A - B).msb := by
  show ((A - B) >>> 31 == 1) = _
  rw [shiftRight_top]
  cases (A - B).msb with
  | true => rfl
  | false => rfl

theorem branchAlu_bge (A B : U32) :
    NextPc.branchAlu A B 0b101 = !(A - B).msb := by
  show ((A - B) >>> 31 == 0) = _
  rw [shiftRight_top]
  cases (A - B).msb with
  | true => rfl
  | false => rfl

/-- A branch goes by the answer of the branch unit. -/
theorem calculateNextPc_branch (pc offset mepc : U32) (f : BitVec 3)
    (A B : U32) :
    (NextPc.calculateNextPc pc offset .BTYPE f A B mepc).2
      = if NextPc.branchAlu A B f = true then pc + offset else pc + 4 := by
  have hupdate : NextPc.update pc offset .BTYPE f A B mepc
      = if NextPc.branchAlu A B f = true then pc + offset else pc + 4 := by
    show pc + (if NextPc.branchAlu A B f = true then offset else 4) = _
    split
    · rfl
    · rfl
  rw [← hupdate]
  unfold NextPc.calculateNextPc
  dsimp only
  split
  · rfl
  · rfl

/-- The core compares two numbers as the signed numbers they are exactly
when their difference fits in 32 bits. -/
theorem compares_signed_iff (A B : U32) :
    ComparesSigned A B ↔ DifferenceFits A B := by
  rw [← msb_sub_iff]
  constructor
  · intro h
    have hblt := h.blt
    rw [branchAlu_blt] at hblt
    rw [hblt, decide_eq_true_eq]
  · intro hsign
    have hmsb : (A - B).msb = decide (A.toInt < B.toInt) := by
      rw [Bool.eq_iff_iff, hsign, decide_eq_true_eq]
    have halu : Alu.execute A B .SLT
        = .ok (if A.toInt < B.toInt then 1 else 0) := by
      rw [execute_slt]
      simp only [hsign]
    have hblt : NextPc.branchAlu A B 0b100 = decide (A.toInt < B.toInt) := by
      rw [branchAlu_blt, hmsb]
    have hbge : NextPc.branchAlu A B 0b101 = decide (A.toInt ≥ B.toInt) := by
      rw [branchAlu_bge, hmsb, ← decide_not]
      simp only [ge_iff_le, Int.not_lt]
    exact {
      alu := halu
      blt := hblt
      bge := hbge
      bltNext := fun pc offset mepc => by
        rw [calculateNextPc_branch, hblt]
        simp only [decide_eq_true_eq]
      bgeNext := fun pc offset mepc => by
        rw [calculateNextPc_branch, hbge]
        simp only [decide_eq_true_eq]
      instructions := fun L s w hw hf hA hB => by
        refine Mcu.executeInstruction_of_result hw ?_
        rcases hB with ⟨hop, hB⟩ | ⟨hop, hB⟩
        · refine .rtype hop ?_
          rw [hA, hB, hf]
          exact halu
        · refine .itype hop ?_
          rw [hA, hB, hf]
          exact halu }

/-- The least number is less than 1, and the core finds it greater. -/
theorem least_not_less_than_one :
    Alu.execute 0x80000000 1 .SLT = .ok 0
      ∧ (0x80000000 : U32).toInt < (1 : U32).toInt
      ∧ ¬ ComparesSigned 0x80000000 1 := by
  refine ⟨by decide, by decide, fun h => ?_⟩
  exact absurd h.alu (by decide)

-- ===================================================== register shifts

/-- With the sign bit spread over the word, a number is itself or its
complement, and a logical shift between two complements is the
arithmetic one. -/
theorem arithmetic_shift (A : U32) (n : Nat) :
    (((-(A >>> 31)) ^^^ A) >>> n) ^^^ (-(A >>> 31))
      = BitVec.ofInt 32 (A.toInt / 2 ^ n) := by
  have hdiv : BitVec.ofInt 32 (A.toInt / 2 ^ n) = A.sshiftRight n := by
    rw [← BitVec.ofInt_toInt (x := A.sshiftRight n),
      BitVec.toInt_sshiftRight, Int.shiftRight_eq_div_pow]
    rfl
  rw [hdiv, shiftRight_top]
  cases h : A.msb with
  | true =>
      rw [if_pos rfl, BitVec.sshiftRight_eq_of_msb_true h]
      show (BitVec.allOnes 32 ^^^ A) >>> n ^^^ BitVec.allOnes 32 = _
      rw [BitVec.allOnes_xor, BitVec.xor_allOnes]
  | false =>
      rw [if_neg (by simp), BitVec.sshiftRight_eq_of_msb_false h]
      show (0#32 ^^^ A) >>> n ^^^ 0#32 = _
      rw [BitVec.zero_xor, BitVec.xor_zero]

namespace Mcu

/-- The operation that the control unit selects for the shift. -/
def shiftOp (w : U32) : AluOp :=
  AluControlUnit.getAluOperation .RTYPE (funct7 w) (funct3 w)

/-- The shift is carried out with a count below 32, and `rd` receives the
first operand shifted by the low five bits of the second. -/
structure ShiftsByLowBits (s : Mcu L) (w : U32) : Prop where
  defined : Alu.execute (s.rf.read (rs1 w)) (s.rf.read (rs2 w)) (shiftOp w)
    ≠ .error .shiftCount
  result : ∃ code t, s.executeInstruction = .ok (code, t)
    ∧ t.rf = s.rf.write (Rv32.shiftResult w (s.rf.read (rs1 w))
        (s.rf.read (rs2 w))) (rd w)

/-- The ALU's answer to a register shift. -/
theorem execute_shift {w : U32} (h : Rv32.IsShift w) (A B : U32) :
    Alu.execute A B (shiftOp w)
      = if B.toNat < 32 then .ok (Rv32.shiftResult w A B)
        else .error .shiftCount := by
  have hcount : B.toNat < 32 → B.toNat % 32 = B.toNat := Nat.mod_eq_of_lt
  rcases h.2 with ⟨hf, h7⟩ | ⟨hf, h7⟩
  · have hsll : Rv32.shiftResult w A B = A <<< (B.toNat % 32) := if_pos hf
    unfold shiftOp
    rw [hsll, show funct3 w = 1 from hf]
    show shiftBy (· <<< ·) A B = _
    unfold shiftBy
    split
    · next hlt => rw [hcount hlt]
    · rfl
  · have hright : Rv32.shiftResult w A B
        = if Rv32.funct7 w = 0 then A >>> (B.toNat % 32)
          else BitVec.ofInt 32 (A.toInt / 2 ^ (B.toNat % 32)) :=
      if_neg (by rw [hf]; decide)
    unfold shiftOp
    rw [hright, show funct3 w = 5 from hf]
    rcases h7 with h7 | h7
    · rw [if_pos h7, show funct7 w = 0 from h7]
      show shiftBy (· >>> ·) A B = _
      unfold shiftBy
      split
      · next hlt => rw [hcount hlt]
      · rfl
    · have hne : ¬ Rv32.funct7 w = 0 := by
        rw [h7]
        decide
      rw [if_neg hne, show funct7 w = 0b0100000 from h7]
      show (shiftBy (· >>> ·) ((-(A >>> 31)) ^^^ A) B >>= fun shifted =>
        .ok (shifted ^^^ (-(A >>> 31)))) = _
      unfold shiftBy
      split
      · next hlt => rw [ok_bind, arithmetic_shift, hcount hlt]
      · rfl

/-- A register shift is right exactly when the register that holds the
count holds a number below 32. -/
theorem shifts_by_low_bits_iff (s : Mcu L) (w : U32) (hw : s.Fetches w)
    (hshift : Rv32.IsShift w) :
    s.ShiftsByLowBits w ↔ (s.rf.read (rs2 w)).toNat < 32 := by
  have hop : opcodeOf w = .RTYPE := opcodeOf_of_opcode hshift.1
  have halu := execute_shift hshift (s.rf.read (rs1 w)) (s.rf.read (rs2 w))
  constructor
  · intro h
    by_contra hlarge
    rw [if_neg hlarge] at halu
    exact h.defined halu
  · intro hlt
    rw [if_pos hlt] at halu
    refine ⟨by rw [halu]; nofun, ?_⟩
    exact executeInstruction_of_result hw (.rtype hop halu)

/-- The count of an immediate shift is cut to five bits, so the ALU never
refuses it. -/
theorem immediate_shift_defined {w : U32} (hop : opcodeOf w = .ITYPE)
    (hf : funct3 w = 0b001 ∨ funct3 w = 0b101) :
    (ImmediateGenerator.getImmediate w).toNat < 32 := by
  unfold ImmediateGenerator.getImmediate
  rw [hop]
  dsimp only
  rw [if_pos hf, BitVec.toNat_and]
  exact Nat.lt_succ_of_le Nat.and_le_right

/-- After `li x2, 32` the shift `sll x3, x1, x2` is undefined. -/
theorem shift_by_32_undefined :
    ∃ s : Mcu .linker,
      steps nextInstruction 1 (program [0x02000113, 0x002091b3]) = .ok s
        ∧ s.Fetches 0x002091b3 ∧ Rv32.IsShift 0x002091b3
        ∧ s.executeInstruction = .error .shiftCount
        ∧ ¬ s.ShiftsByLowBits 0x002091b3 := by
  have hrun : (steps nextInstruction 1
      (program [0x02000113, 0x002091b3])).map (fun t =>
        (t.busRead t.pc WORD, t.executeInstruction.map (·.1)))
      = .ok (.ok (STATUS_OK, some 0x002091b3), .error .shiftCount) := by
    decide +kernel
  obtain ⟨s, hs, hobs⟩ := map_eq_ok.1 hrun
  obtain ⟨hfetch, hcode⟩ := Prod.mk.inj hobs
  have hexec : s.executeInstruction = .error .shiftCount := by
    cases h : s.executeInstruction with
    | error e =>
        rw [h] at hcode
        exact congrArg Except.error (Except.error.inj hcode)
    | ok r =>
        rw [h] at hcode
        cases hcode
  refine ⟨s, hs, hfetch, by decide, hexec, fun h => ?_⟩
  obtain ⟨code, t, ht, -⟩ := h.result
  rw [hexec] at ht
  cases ht

/-- After `li x1, -8` and `li x2, 1`, `sra x3, x1, x2` leaves -4. -/
theorem arithmetic_shift_by_one :
    ∃ s : Mcu .linker,
      steps nextInstruction 2
          (program [0xff800093, 0x00100113, 0x4020d1b3]) = .ok s
        ∧ s.ShiftsByLowBits 0x4020d1b3 := by
  have hrun : (steps nextInstruction 2
      (program [0xff800093, 0x00100113, 0x4020d1b3])).map (fun t =>
        (t.busRead t.pc WORD, t.rf.read 2#5))
      = .ok (.ok (STATUS_OK, some 0x4020d1b3), 1) := by
    decide +kernel
  obtain ⟨s, hs, hobs⟩ := map_eq_ok.1 hrun
  obtain ⟨hfetch, hx2⟩ := Prod.mk.inj hobs
  refine ⟨s, hs, ?_⟩
  refine (shifts_by_low_bits_iff s 0x4020d1b3 hfetch (by decide)).2 ?_
  rw [show rs2 0x4020d1b3 = 2#5 from rfl, hx2]
  decide

end Mcu

end T89Emu
