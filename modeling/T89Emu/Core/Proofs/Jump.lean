/-
Where JAL and JALR land, and what they leave in the link register.

The instruction set clears the low bit of the sum that JALR forms, and a
jump to a misaligned address links nothing (`JumpsRight`). The core
takes the sum as it is, and has written the link register by the time
the next-pc unit looks at it. So an odd sum is refused that should be
rounded down, and a refused jump links unless the register cannot tell:
`jumps_right_iff` goes through the four remainders of the sum.
-/
import T89Emu.Core.Proofs.Decode

namespace T89Emu

open Bytes Cpp Run

variable {L : Layout}

namespace Mcu

-- ================================================ statement vocabulary

/-- The sum of the jump, of the registers before it. -/
def jumpSum (s : Mcu L) (w : U32) : U32 :=
  Rv32.jumpSum w s.pc (s.rf.read (rs1 w))

/-- Where the jump has to land. -/
def landing (s : Mcu L) (w : U32) : U32 :=
  Rv32.jumpTarget w s.pc (s.rf.read (rs1 w))

/-- The jump lands on a multiple of 4 and links the address after it, or
is refused as misaligned and leaves `rd` alone. -/
def JumpsRight (s : Mcu L) (w : U32) : Prop :=
  ∃ code t, s.executeInstruction = .ok (code, t)
    ∧ ((s.landing w).toNat % 4 = 0 →
      code = STATUS_OK ∧ t.pc = s.landing w ∧ t.nextPc = s.landing w
        ∧ (rd w ≠ 0#5 → t.rf.read (rd w) = s.pc + 4))
    ∧ ((s.landing w).toNat % 4 ≠ 0 →
      code = INSTRUCTION_ADDRESS_MISALIGNED
        ∧ t.rf.read (rd w) = s.rf.read (rd w))

-- ============================================================ the low bit

/-- Clearing the low bit is halving and doubling. -/
theorem and_not_one (v : U32) : v &&& ~~~ 1#32 = (v >>> 1) <<< 1 := by
  apply BitVec.eq_of_getLsbD_eq
  intro i hi
  rw [BitVec.getLsbD_and, BitVec.getLsbD_not, BitVec.getLsbD_one,
    BitVec.getLsbD_shiftLeft, BitVec.getLsbD_ushiftRight]
  cases i with
  | zero => simp
  | succ i => simp [hi, Nat.add_comm 1 i]

/-- A doubled value is even. -/
theorem toNat_shiftLeft_one_even (v : U32) :
    (v <<< 1).toNat % 2 = 0 := by
  rw [BitVec.toNat_shiftLeft, Nat.shiftLeft_eq]
  omega

/-- So it rounds down to an even number. -/
theorem toNat_and_not_one (v : U32) :
    (v &&& ~~~ 1#32).toNat = v.toNat - v.toNat % 2 := by
  have hv := v.isLt
  rw [and_not_one, BitVec.toNat_shiftLeft, BitVec.toNat_ushiftRight,
    Nat.shiftLeft_eq, Nat.shiftRight_eq_div_pow]
  omega

variable {s : Mcu L} {w : U32}

/-- A jump lands on its sum, rounded down. JAL from an aligned address has
nothing to round. -/
theorem toNat_landing (hal : s.pc.toNat % 4 = 0) :
    (s.landing w).toNat
      = (s.jumpSum w).toNat - (s.jumpSum w).toNat % 2 := by
  unfold landing jumpSum Rv32.jumpTarget
  split
  · next hop =>
    have heven := toNat_shiftLeft_one_even
      ((Rv32.jField w).signExtend 32)
    have hsum : (Rv32.jumpSum w s.pc (s.rf.read (rs1 w))).toNat % 2 = 0 := by
      unfold Rv32.jumpSum Rv32.jImmediate
      rw [if_pos hop, BitVec.toNat_add]
      omega
    omega
  · exact toNat_and_not_one _

-- ============================================================ the two units

/-- The opcodes of the jumps. -/
theorem opcodeOf_of_isJump (h : Rv32.IsJump w) :
    opcodeOf w = .JAL ∨ opcodeOf w = .JALR :=
  h.imp opcodeOf_of_opcode opcodeOf_of_opcode

/-- The next-pc unit takes the sum. -/
theorem target_of_isJump (h : Rv32.IsJump w) (hsync : s.nextPc = s.pc) :
    s.target w = s.jumpSum w := by
  unfold target jumpSum Rv32.jumpSum NextPc.update operandA
  rw [hsync]
  rcases h with h | h
  · have hop : opcodeOf w = .JAL := opcodeOf_of_opcode h
    rw [hop, if_pos h, getImmediate_jal hop]
  · have hop : opcodeOf w = .JALR := opcodeOf_of_opcode h
    have hne : Rv32.opcode w ≠ Rv32.JAL := by
      rw [h]
      decide
    rw [hop, if_neg hne, getImmediate_i (.inl hop)]

/-- The link is written whatever becomes of the jump. -/
theorem executeInstruction_links (hw : s.Fetches w) (h : Rv32.IsJump w)
    (hsync : s.nextPc = s.pc) :
    s.executeInstruction
      = .ok (if (s.jumpSum w).toNat % 4 ≠ 0 then
          (INSTRUCTION_ADDRESS_MISALIGNED,
            { s.writeReg (s.pc + 4) (rd w) with nextPc := s.jumpSum w })
        else
          (STATUS_OK,
            { s.writeReg (s.pc + 4) (rd w) with
              nextPc := s.jumpSum w
              pc := s.jumpSum w })) := by
  have hlink : Retired s w (s.writeReg (s.pc + 4) (rd w)) :=
    .writeback (.link (opcodeOf_of_isJump h))
  rw [executeInstruction_of_retired hw hlink, target_of_isJump h hsync]

-- ============================================================== the result

/-- A jump lands and links as the instruction set says exactly when its sum
is a multiple of 4, or has bit 1 set and the link register holds the
return address already. -/
theorem jumps_right_iff (s : Mcu L) (w : U32) (hw : s.Fetches w)
    (hsync : s.nextPc = s.pc) (hjump : Rv32.IsJump w) :
    s.JumpsRight w ↔ (s.jumpSum w).toNat % 4 = 0
      ∨ 2 ≤ (s.jumpSum w).toNat % 4 ∧ s.Holds w (s.pc + 4) := by
  have hland := toNat_landing (w := w) hw.aligned
  have hexec := executeInstruction_links hw hjump hsync
  unfold JumpsRight
  by_cases hal : (s.jumpSum w).toNat % 4 = 0
  · rw [if_neg (not_not.2 hal)] at hexec
    have heq : s.landing w = s.jumpSum w := by
      apply BitVec.eq_of_toNat_eq
      omega
    refine iff_of_true ⟨_, _, hexec, fun _ => ?_, fun h => ?_⟩ (.inl hal)
    · exact ⟨rfl, heq.symm, heq.symm, fun hrd =>
        s.rf.read_write_self hrd _⟩
    · rw [heq] at h
      exact absurd hal h
  · rw [if_pos hal] at hexec
    rw [or_iff_right hal]
    constructor
    · rintro ⟨code, t, h, hlands, hrefused⟩
      rw [hexec] at h
      cases h
      have hbit : 2 ≤ (s.jumpSum w).toNat % 4 := by
        by_contra hodd
        exact absurd (hlands (by omega)).1 (by decide)
      refine ⟨hbit, ?_⟩
      by_cases hrd : rd w = 0#5
      · exact .inl hrd
      · have hkept := (hrefused (by omega)).2
        exact .inr (hkept.symm.trans (s.rf.read_write_self hrd _))
    · rintro ⟨hbit, hholds⟩
      refine ⟨_, _, hexec, fun h => ?_, fun _ => ⟨rfl, ?_⟩⟩
      · omega
      · have hsame := (s.rf.write_eq_self_iff _ _).2 hholds
        exact congrArg (fun rf => rf.read (rd w)) hsame

/-- After `auipc x1, 0`, the jump `jalr x0, 5(x1)` should land on the
second word of ROM, and is refused as misaligned. -/
theorem odd_sum_refused :
    ∃ s : Mcu .linker,
      steps nextInstruction 1 (program [0x00000097, 0x00508067]) = .ok s
        ∧ s.Fetches 0x00508067 ∧ s.nextPc = s.pc
        ∧ s.landing 0x00508067 = 0x80000004
        ∧ s.executeInstruction.map (fun r => r.1)
          = .ok INSTRUCTION_ADDRESS_MISALIGNED
        ∧ ¬ s.JumpsRight 0x00508067 := by
  have hrun : (steps nextInstruction 1
      (program [0x00000097, 0x00508067])).map (fun t =>
        (t.busRead t.pc WORD, t.nextPc == t.pc, t.landing 0x00508067,
          t.executeInstruction.map fun r => r.1))
      = .ok (.ok (STATUS_OK, some 0x00508067), true, 0x80000004,
          .ok INSTRUCTION_ADDRESS_MISALIGNED) := by
    decide +kernel
  obtain ⟨s, hs, hobs⟩ := map_eq_ok.1 hrun
  obtain ⟨hfetch, hobs⟩ := Prod.mk.inj hobs
  obtain ⟨hsync, hobs⟩ := Prod.mk.inj hobs
  obtain ⟨hland, hexec⟩ := Prod.mk.inj hobs
  refine ⟨s, hs, hfetch, beq_iff_eq.1 hsync, hland, hexec, ?_⟩
  rintro ⟨code, t, h, hlands, -⟩
  have hok := (hlands (by rw [hland]; decide)).1
  rw [h, hok] at hexec
  have hne : STATUS_OK = INSTRUCTION_ADDRESS_MISALIGNED :=
    Except.ok.inj hexec
  exact absurd hne (by decide)

/-- `jal x1, 8` as the first instruction. -/
theorem forward_jump_right :
    (program [0x008000ef]).JumpsRight 0x008000ef := by
  have hw : (program [0x008000ef]).Fetches 0x008000ef := by
    unfold Fetches
    decide +kernel
  exact (jumps_right_iff _ _ hw rfl (by decide)).2
    (.inl (by decide +kernel))

end Mcu

end T89Emu
