/-
The decoder against the instruction set.

`Rv32.Valid` says which words are instructions. Two promises are
compared with the core: a word that is none traps and changes nothing
(`TrapsUndefined`), and one that is, is executed (`ExecutesAdvertised`).

# What the decoder does

The core decodes by major opcode and then lets every unit fall through
to some default, so only an opcode that no case label names is illegal
(`illegal_cases`; a store to ROM answers with the same code). Undefined
words under a known opcode run as some other instruction or as none.
In the other direction FENCE has an opcode of its own that no case label
names, and EBREAK and the CSR immediate instructions end in branches of
the PRIV arm that do nothing.
-/
import Mathlib.Tactic.IntervalCases
import T89Emu.Core.Proofs.Step
import T89Emu.Lib.Rv32

namespace T89Emu

open Bytes Cpp

variable {L : Layout}

-- ========================================================= major opcodes

/-- The core's opcode depends on the instruction set's opcode field
only. -/
theorem opcodeOf_of_opcode {w : U32} {o : BitVec 7}
    (h : Rv32.opcode w = o) : opcodeOf w = opcodeOf (o.setWidth 32) := by
  have hfield : w.extractLsb' 0 7
      = (o.setWidth 32 : U32).extractLsb' 0 7 := by
    rw [show w.extractLsb' 0 7 = o from h]
    apply BitVec.eq_of_getLsbD_eq
    intro i hi
    simp [hi]
    omega
  unfold opcodeOf
  rw [hfield]

/-- FENCE is the one instruction whose opcode no case label names. -/
theorem isFence_of_other {w : U32} (hvalid : Rv32.Valid w)
    (h : opcodeOf w = .other) : Rv32.IsFence w := by
  have hop : ∀ {o}, Rv32.opcode w = o →
      opcodeOf (o.setWidth 32) = .other := fun ho =>
    (opcodeOf_of_opcode ho).symm.trans h
  rcases hvalid with ho | ho | ho | ho | ho | ho | ho | ho | ho | ho | ho
    | ho | ho | ho | ho
  · exact absurd (hop ho) (by decide)
  · exact absurd (hop ho) (by decide)
  · exact absurd (hop ho) (by decide)
  · exact absurd (hop ho.1) (by decide)
  · exact absurd (hop ho.1) (by decide)
  · exact absurd (hop ho.1) (by decide)
  · exact absurd (hop ho.1) (by decide)
  · exact absurd (hop ho.1) (by decide)
  · exact absurd (hop ho.1) (by decide)
  · exact ho
  · exact absurd (hop ho.1) (by decide)
  · exact absurd (hop ho.1) (by decide)
  · rw [ho] at h
    exact absurd h (by decide)
  · rw [ho] at h
    exact absurd h (by decide)
  · rw [ho] at h
    exact absurd h (by decide)

-- ============================================================ immediates

/-- Testing a bit by shifting it to the bottom. -/
theorem shiftRight_and_one_iff (v : U32) (k : Nat) :
    (v >>> k) &&& 0b1 = 1 ↔ v.getLsbD k = true :=
  Csr.getBit_eq_one_iff ⟨fun _ => v⟩ 0 k

/-- Sign extension as the source does it: the bits above the field are
set when its top bit is. -/
theorem signExtend_eq_ite {n : Nat} (v : BitVec n) (hn : n ≤ 32) :
    v.signExtend 32
      = if v.getLsbD (n - 1) = true then
          v.setWidth 32 ||| (BitVec.allOnes 32 <<< n)
        else v.setWidth 32 := by
  apply BitVec.eq_of_getLsbD_eq
  intro i hi
  rw [BitVec.getLsbD_signExtend, BitVec.msb_eq_getLsbD_last]
  by_cases hs : v.getLsbD (n - 1) = true
  · rw [if_pos hs, hs, BitVec.getLsbD_or, BitVec.getLsbD_setWidth,
      BitVec.getLsbD_shiftLeft, BitVec.getLsbD_allOnes]
    by_cases hlow : i < n
    · simp [hi, hlow]
    · simp [hi, hlow, show i - n < 32 by omega]
  · rw [if_neg hs, BitVec.getLsbD_setWidth]
    by_cases hlow : i < n
    · simp [hi, hlow]
    · rw [BitVec.getLsbD_of_ge v i (by omega)]
      simp [hi, hlow, hs]

/-- The core decodes the offset of JAL. -/
theorem getImmediate_jal {w : U32} (h : opcodeOf w = .JAL) :
    ImmediateGenerator.getImmediate w = Rv32.jImmediate w := by
  have hraw : ((w >>> 12) &&& 0x00080000) ||| ((w >>> 1) &&& 0x0007f800)
        ||| ((w >>> 10) &&& 0x00000400) ||| ((w >>> 21) &&& 0x000003ff)
      = (Rv32.jField w).setWidth 32 := by
    apply BitVec.eq_of_getLsbD_eq
    intro i hi
    simp only [Rv32.jField, BitVec.getLsbD_or, BitVec.getLsbD_and,
      BitVec.getLsbD_ushiftRight, BitVec.getLsbD_setWidth,
      BitVec.getLsbD_append, BitVec.getLsbD_extractLsb']
    interval_cases i <;> simp
  have hsign : ((Rv32.jField w).setWidth 32).getLsbD 19
      = (Rv32.jField w).getLsbD 19 := by simp
  unfold ImmediateGenerator.getImmediate Rv32.jImmediate
  rw [h]
  dsimp only
  rw [hraw, signExtend_eq_ite _ (by decide)]
  simp only [shiftRight_and_one_iff, hsign]
  rfl

/-- The 12 bits at the top of the word, as the source isolates them. -/
theorem shiftRight_twenty (w : U32) :
    w >>> 20 = (w.extractLsb' 20 12).setWidth 32 := by
  apply BitVec.eq_of_getLsbD_eq
  intro i hi
  rw [BitVec.getLsbD_ushiftRight, BitVec.getLsbD_setWidth,
    BitVec.getLsbD_extractLsb']
  by_cases hfield : i < 12
  · simp [hi, hfield]
  · simp [hfield, BitVec.getLsbD_of_ge w (20 + i) (by omega)]

/-- The sign bit of the word, tested by what is left above it. -/
theorem shiftRight_ne_zero_iff (w : U32) :
    w >>> 31 ≠ 0 ↔ (w.extractLsb' 20 12).getLsbD 11 = true := by
  rw [BitVec.getLsbD_extractLsb', decide_eq_true (by decide : 11 < 12),
    Bool.true_and]
  constructor
  · intro h
    by_contra hbit
    refine h (BitVec.eq_of_getLsbD_eq fun i hi => ?_)
    rw [BitVec.getLsbD_ushiftRight]
    cases i with
    | zero => simpa using hbit
    | succ i => simp [BitVec.getLsbD_of_ge w (31 + (i + 1)) (by omega)]
  · intro hbit h
    have hlow := congrArg (fun v : U32 => v.getLsbD 0) h
    rw [BitVec.getLsbD_ushiftRight] at hlow
    rw [hlow] at hbit
    exact absurd hbit (by decide)

/-- The core decodes the immediates of JALR and of the loads. -/
theorem getImmediate_i {w : U32}
    (h : opcodeOf w = .JALR ∨ opcodeOf w = .LOAD) :
    ImmediateGenerator.getImmediate w = Rv32.iImmediate w := by
  unfold ImmediateGenerator.getImmediate Rv32.iImmediate
  rw [signExtend_eq_ite _ (by decide)]
  rcases h with h | h
  · have hmask : (w >>> 20) &&& 0xfff = (w.extractLsb' 20 12).setWidth 32 := by
      rw [shiftRight_twenty]
      apply BitVec.eq_of_getLsbD_eq
      intro i hi
      interval_cases i <;> simp
    have hsign : ((w.extractLsb' 20 12).setWidth 32 : U32).getLsbD 11
        = (w.extractLsb' 20 12).getLsbD 11 := by simp
    rw [h]
    dsimp only
    rw [hmask]
    simp only [shiftRight_and_one_iff, hsign]
    rfl
  · rw [h]
    dsimp only
    simp only [shiftRight_ne_zero_iff]
    rw [shiftRight_twenty]
    rfl

namespace Mcu

-- ================================================ statement vocabulary

/-- A word that is no instruction traps as illegal and changes
nothing. -/
def TrapsUndefined (s : Mcu L) : Prop :=
  ∀ w, s.Fetches w → ¬ Rv32.Valid w →
    ∃ s', s.executeInstruction = .ok (ILLEGAL_INSTRUCTION, s')
      ∧ Unchanged s s'

/-- The decoder calls the word illegal. A store can only get that answer
from the bus, as ROM's refusal. -/
def RejectedAtDecode (s : Mcu L) (w : U32) : Prop :=
  opcodeOf w ≠ .STORE
    ∧ ∃ s', s.executeInstruction = .ok (ILLEGAL_INSTRUCTION, s')

/-- What a CSR immediate instruction makes of its CSR. -/
def csrImmediateResult (s : Mcu L) (w : U32) : U32 :=
  Rv32.csrImmediateUpdate w (s.csr.readCsr (csrAddr w))

/-- The word is executed as the instruction it is. -/
structure Executes (s : Mcu L) (w : U32) : Prop where
  decoded : ¬ s.RejectedAtDecode w
  fence : Rv32.IsFence w → s.executeInstruction
    = .ok (STATUS_OK, { s with pc := s.pc + 4, nextPc := s.nextPc + 4 })
  ebreak : w = Rv32.EBREAK →
    ∃ s', s.executeInstruction = .ok (BREAKPOINT, s')
  csrImmediate : Rv32.IsCsrImmediate w →
    ∃ code s', s.executeInstruction = .ok (code, s')
      ∧ s'.rf = s.rf.write (s.csr.readCsr (csrAddr w)) (rd w)
      ∧ s'.csr = s.csr.writeCsr (csrAddr w) (s.csrImmediateResult w)

/-- Every instruction of the advertised set is executed. -/
def ExecutesAdvertised (s : Mcu L) : Prop :=
  ∀ w, s.Fetches w → Rv32.Valid w → s.Executes w

-- ====================================================== illegal words

/-- The core answers `ILLEGAL_INSTRUCTION` to the opcodes that no case
label names and to stores into ROM, and it has changed nothing then. -/
theorem illegal_cases {s s' : Mcu L} {w : U32} (hw : s.Fetches w)
    (hexec : s.executeInstruction = .ok (ILLEGAL_INSTRUCTION, s')) :
    s' = s ∧ (opcodeOf w = .other ∨ opcodeOf w = .STORE
      ∧ bus.select L.device (s.effectiveAddr w) = some .rom) := by
  rcases executeInstruction_cases hexec with
    ⟨rfl, -, ⟨v, hr⟩ | ⟨w', hw', hraise⟩⟩
    | ⟨w', t, -, -, ⟨-, hcode, -⟩ | ⟨-, hcode, -⟩⟩
  · rw [hw] at hr
    exact absurd (Prod.mk.inj (Except.ok.inj hr)).1 (by decide)
  · rw [hw.unique hw']
    exact ⟨rfl, (executeOpcode_raise hraise).2.2 rfl⟩
  · exact absurd hcode (by decide)
  · exact absurd hcode (by decide)

/-- To those it does. -/
theorem illegal_of_other_or_rom {s : Mcu L} {w : U32} (hw : s.Fetches w)
    (h : opcodeOf w = .other ∨ opcodeOf w = .STORE
      ∧ bus.select L.device (s.effectiveAddr w) = some .rom) :
    s.executeInstruction = .ok (ILLEGAL_INSTRUCTION, s) := by
  have hraise : s.executeOpcode w = .ok (.raise ILLEGAL_INSTRUCTION s) := by
    unfold executeOpcode
    rcases h with hop | ⟨hop, hrom⟩
    · rw [hop]
    · rw [hop]
      show (s.busWrite (s.effectiveAddr w) _ _ >>= _) = _
      rw [busWrite_rom hrom]
      rfl
  rw [executeInstruction_of_fetches hw, hraise]
  rfl

/-- Undefined encodings trap in a state exactly when the word there, if
it is no instruction, has an unknown major opcode or is a store that
hits ROM. -/
theorem traps_undefined_iff (s : Mcu L) :
    s.TrapsUndefined ↔ ∀ w, s.Fetches w → ¬ Rv32.Valid w →
      opcodeOf w = .other ∨ opcodeOf w = .STORE
        ∧ bus.select L.device (s.effectiveAddr w) = some .rom := by
  unfold TrapsUndefined
  refine forall₃_congr fun w hw _ => ⟨?_, fun h => ?_⟩
  · rintro ⟨s', hexec, -⟩
    exact (illegal_cases hw hexec).2
  · exact ⟨s, illegal_of_other_or_rom hw h, rfl, rfl, rfl, rfl⟩

/-- `mul x3, x1, x2` runs as `sub`: with both operands 0 it stores 0 and
goes on. -/
theorem mul_does_not_trap :
    let s := program [0x022081b3]
    s.Fetches 0x022081b3 ∧ ¬ Rv32.Valid 0x022081b3
      ∧ s.executeInstruction.map (fun r => (r.1, r.2.pc))
        = .ok (STATUS_OK, 0x80000004)
      ∧ ¬ s.TrapsUndefined := by
  intro s
  have hw : s.Fetches 0x022081b3 := by
    unfold Fetches
    decide +kernel
  have hinvalid : ¬ Rv32.Valid 0x022081b3 := by decide
  have hexec : s.executeInstruction.map (fun r => (r.1, r.2.pc))
      = .ok (STATUS_OK, 0x80000004) := by decide +kernel
  refine ⟨hw, hinvalid, hexec, fun h => ?_⟩
  obtain ⟨s', hs', -⟩ := h _ hw hinvalid
  obtain ⟨r, hr, hok⟩ := map_eq_ok.1 hexec
  rw [hs', Except.ok.injEq] at hr
  subst hr
  have hcode : ILLEGAL_INSTRUCTION = STATUS_OK := (Prod.mk.inj hok).1
  exact absurd hcode (by decide)

-- ====================================================== valid words

/-- The PRIV arm leaves EBREAK and the CSR immediate instructions
alone. -/
theorem executePriv_ignored {s : Mcu L} {w : U32}
    (h : w = Rv32.EBREAK ∨ Rv32.IsCsrImmediate w) :
    s.executePriv w = .retire s 0 0 := by
  unfold executePriv
  dsimp only
  rcases h with rfl | ⟨-, hf | hf | hf⟩
  · rfl
  · rw [show funct3 w = 5#3 from hf]
    rfl
  · rw [show funct3 w = 6#3 from hf]
    rfl
  · rw [show funct3 w = 7#3 from hf]
    rfl

/-- They run as instructions without effect. -/
theorem executeInstruction_ignored {s : Mcu L} {w : U32}
    (hw : s.Fetches w) (h : w = Rv32.EBREAK ∨ Rv32.IsCsrImmediate w) :
    ∃ code s', s.executeInstruction = .ok (code, s')
      ∧ (code = STATUS_OK ∨ code = INSTRUCTION_ADDRESS_MISALIGNED)
      ∧ s'.rf = s.rf ∧ s'.csr = s.csr := by
  have hop : opcodeOf w = .PRIV := by
    rcases h with rfl | h
    · rfl
    · exact opcodeOf_of_opcode h.1
  have hret : Retired s w s := .system hop (executePriv_ignored h)
  have hexec := executeInstruction_of_retired hw hret
  by_cases hal : (s.target w).toNat % 4 = 0
  · rw [if_neg (not_not.2 hal)] at hexec
    exact ⟨_, _, hexec, .inl rfl, rfl, rfl⟩
  · rw [if_pos hal] at hexec
    exact ⟨_, _, hexec, .inr rfl, rfl, rfl⟩

/-- What the advertised instruction must be for the core to execute it:
neither FENCE nor EBREAK, and a CSR immediate instruction only if `rd`
and the CSR hold its results already. -/
def Handled (s : Mcu L) (w : U32) : Prop :=
  ¬ Rv32.IsFence w ∧ w ≠ Rv32.EBREAK
    ∧ (Rv32.IsCsrImmediate w →
      s.Holds w (s.csr.readCsr (csrAddr w))
        ∧ s.csr.readCsr (csrAddr w) = s.csrImmediateResult w)

/-- One word at a time: it is executed exactly when it is handled. -/
theorem executes_iff_handled {s : Mcu L} {w : U32} (hw : s.Fetches w)
    (hvalid : Rv32.Valid w) : s.Executes w ↔ s.Handled w := by
  constructor
  · intro h
    refine ⟨fun hfence => ?_, fun hbreak => ?_, fun hcsr => ?_⟩
    · have hop : opcodeOf w = .other := opcodeOf_of_opcode hfence.1
      refine h.decoded ⟨by rw [hop]; decide, s, ?_⟩
      exact illegal_of_other_or_rom hw (.inl hop)
    · obtain ⟨s', hs'⟩ := h.ebreak hbreak
      obtain ⟨code, t, hexec, hcode, -, -⟩ :=
        executeInstruction_ignored hw (.inl hbreak)
      rw [hs'] at hexec
      cases hexec
      exact absurd hcode (by decide)
    · obtain ⟨code, s', hs', hrf, hcsr'⟩ := h.csrImmediate hcsr
      obtain ⟨code', t, hexec, -, hrf', hcsr''⟩ :=
        executeInstruction_ignored hw (.inr hcsr)
      rw [hs'] at hexec
      cases hexec
      rw [hrf'] at hrf
      rw [hcsr''] at hcsr'
      exact ⟨(s.rf.write_eq_self_iff _ _).1 hrf.symm,
        (s.csr.writeCsr_eq_self_iff _ _).1 hcsr'.symm⟩
  · rintro ⟨hfence, hbreak, hcsr⟩
    exact {
      decoded := by
        rintro ⟨hstore, s', hexec⟩
        rcases (illegal_cases hw hexec).2 with hop | hop
        · exact hfence (isFence_of_other hvalid hop)
        · exact hstore hop.1
      fence := fun h => absurd h hfence
      ebreak := fun h => absurd h hbreak
      csrImmediate := by
        intro h
        obtain ⟨code, t, hexec, -, hrf, hcsr'⟩ :=
          executeInstruction_ignored hw (.inr h)
        obtain ⟨hholds, hold⟩ := hcsr h
        refine ⟨code, t, hexec, ?_, ?_⟩
        · rw [hrf, (s.rf.write_eq_self_iff _ _).2 hholds]
        · rw [hcsr', (s.csr.writeCsr_eq_self_iff _ _).2 hold] }

/-- The advertised instruction set is executed in a state exactly when the
instruction there is handled. -/
theorem executes_advertised_iff (s : Mcu L) :
    s.ExecutesAdvertised
      ↔ ∀ w, s.Fetches w → Rv32.Valid w → s.Handled w := by
  unfold ExecutesAdvertised
  exact forall₃_congr fun w hw hvalid => executes_iff_handled hw hvalid

/-- `fence` is an advertised instruction and is called illegal. -/
theorem fence_is_illegal :
    let s := program [0x0ff0000f]
    s.Fetches 0x0ff0000f ∧ Rv32.Valid 0x0ff0000f
      ∧ s.executeInstruction.map (fun r => r.1) = .ok ILLEGAL_INSTRUCTION
      ∧ ¬ s.ExecutesAdvertised := by
  intro s
  have hw : s.Fetches 0x0ff0000f := by
    unfold Fetches
    decide +kernel
  have hvalid : Rv32.Valid 0x0ff0000f := by decide
  have hexec : s.executeInstruction.map (fun r => r.1)
      = .ok ILLEGAL_INSTRUCTION := by decide +kernel
  refine ⟨hw, hvalid, hexec, fun h => ?_⟩
  have hfence := (h _ hw hvalid).fence (by decide)
  obtain ⟨r, hr, hcode⟩ := map_eq_ok.1 hexec
  rw [hfence, Except.ok.injEq] at hr
  subst hr
  have hok : STATUS_OK = ILLEGAL_INSTRUCTION := hcode
  exact absurd hok (by decide)

end Mcu

end T89Emu
