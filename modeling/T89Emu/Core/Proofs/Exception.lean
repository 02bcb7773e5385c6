/-
What an exception leaves to its handler.

The codes that `executeInstruction` raises are seven (`exception_codes`).
Raising one, it has written no memory and no CSR but `mstatus`, and the
program counter is still that of the instruction (`exception_frame`): a
refused jump is the one instruction that has done anything by then
(`control_of_misaligned`), and the jumps write the link register
(`exception_registers`), MRET `mstatus`.
-/
import T89Emu.Core.Proofs.Registers

namespace T89Emu

open Bytes Cpp Run

variable {L : Layout}

namespace Mcu

/-- The codes of the exceptions that are raised. -/
def exceptionCodes : List U32 :=
  [INSTRUCTION_ADDRESS_MISALIGNED, ILLEGAL_INSTRUCTION,
    LOAD_ADDRESS_MISALIGNED, LOAD_ACCESS_FAULT, STORE_ADDRESS_MISALIGNED,
    STORE_ACCESS_FAULT, ECALL_FROM_M_MODE]

variable {s t : Mcu L} {w code : U32}

theorem mem_exceptionCodes_of_busRead {addr : U32} {size : Nat}
    {v : Option U32} (h : s.busRead addr size = .ok (code, v))
    (hne : code ≠ STATUS_OK) : code ∈ exceptionCodes := by
  rcases busRead_status h with rfl | rfl | rfl
  · exact absurd rfl hne
  · decide
  · decide

/-- The codes from inside the `switch`. -/
theorem mem_exceptionCodes_of_raise
    (h : s.executeOpcode w = .ok (.raise code t)) :
    code ∈ exceptionCodes := by
  unfold executeOpcode at h
  cases hop : opcodeOf w with
  | LUI => rw [hop] at h; cases h
  | AUIPC => rw [hop] at h; cases h
  | JAL => rw [hop] at h; cases h
  | JALR => rw [hop] at h; cases h
  | BTYPE => rw [hop] at h; cases h
  | LOAD =>
      rw [hop] at h
      obtain ⟨⟨status, v⟩, hr, h⟩ := bind_eq_ok.1 h
      dsimp only at h
      split at h
      · next hne =>
        cases h
        exact mem_exceptionCodes_of_busRead hr hne
      · obtain ⟨_, -, h⟩ := bind_eq_ok.1 h
        cases h
  | STORE =>
      rw [hop] at h
      obtain ⟨⟨status, mem⟩, hw, h⟩ := bind_eq_ok.1 h
      dsimp only at h
      split at h
      · next hne =>
        cases h
        rcases ((busWrite_status hw).resolve_left hne).1 with
          rfl | rfl | ⟨rfl, -⟩
        · decide
        · decide
        · decide
      · cases h
  | ITYPE =>
      rw [hop] at h
      obtain ⟨_, -, h⟩ := bind_eq_ok.1 h
      cases h
  | RTYPE =>
      rw [hop] at h
      obtain ⟨_, -, h⟩ := bind_eq_ok.1 h
      cases h
  | PRIV =>
      rw [hop, Except.ok.injEq] at h
      rcases s.executePriv_cases w with ⟨hr, -, -⟩ | ⟨rf, csr, hr⟩
      · rw [hr] at h
        cases h
        decide
      · rw [hr] at h
        cases h
  | other =>
      rw [hop] at h
      cases h
      decide

/-- Those of an instruction. -/
theorem exception_codes (h : s.executeInstruction = .ok (code, t))
    (hne : code ≠ STATUS_OK) : code ∈ exceptionCodes := by
  rcases executeInstruction_cases h with
    ⟨-, -, ⟨v, hread⟩ | ⟨w, -, hraise⟩⟩
      | ⟨w, u, -, -, ⟨-, rfl, -⟩ | ⟨-, hok, -⟩⟩
  · exact mem_exceptionCodes_of_busRead hread hne
  · exact mem_exceptionCodes_of_raise hraise
  · decide
  · exact absurd hok hne

/-- Only a jump is refused for its target. -/
theorem target_aligned (hw : s.Fetches w) (hsync : s.nextPc = s.pc)
    (hnext : s.target w = s.nextPc + 4) :
    (s.target w).toNat % 4 = 0 := by
  have hal := hw.aligned
  rw [hnext, hsync, BitVec.toNat_add]
  show (s.pc.toNat + 4) % 2 ^ 32 % 4 = 0
  omega

/-- The words that can be refused for it. -/
theorem control_of_misaligned (hw : s.Fetches w) (hsync : s.nextPc = s.pc)
    (hmis : (s.target w).toNat % 4 ≠ 0) :
    opcodeOf w = .JAL ∨ opcodeOf w = .JALR ∨ opcodeOf w = .BTYPE
      ∨ opcodeOf w = .PRIV ∧ funct3 w = 0#3 := by
  by_contra hnot
  push Not at hnot
  obtain ⟨hjal, hjalr, hbranch, hpriv⟩ := hnot
  refine hmis (target_aligned hw hsync ?_)
  unfold target NextPc.update
  split
  · exact absurd ‹_› hjal
  · exact absurd ‹_› hjalr
  · exact absurd ‹_› hbranch
  · exact if_neg fun hmret => hpriv ‹_› hmret.1
  · rfl

/-- What an instruction has changed when it raises an exception. -/
theorem exception_frame (hsync : s.nextPc = s.pc)
    (h : s.executeInstruction = .ok (code, t)) (hne : code ≠ STATUS_OK) :
    t.pc = s.pc ∧ t.mem = s.mem
      ∧ ∀ a, a ≠ CSR_MSTATUS → t.csr.readCsr a = s.csr.readCsr a := by
  rcases executeInstruction_cases h with
    ⟨rfl, -, -⟩ | ⟨w, u, hw, hu, ⟨hmis, -, rfl⟩ | ⟨-, hok, -⟩⟩
  · exact ⟨rfl, rfl, fun _ _ => rfl⟩
  · have hcontrol := control_of_misaligned hw hsync hmis
    refine ⟨hu.frame.1, ?_, fun a ha => hu.readCsr fun hwrites => ?_⟩
    · rcases hu.mem_cases with hmem | ⟨hop, -⟩
      · exact hmem
      · simp [hop] at hcontrol
    · obtain ⟨hop, ⟨-, -, hstatus⟩ | ⟨-, hf⟩⟩ := hwrites
      · exact ha hstatus
      · have hf0 : funct3 w = 0#3 := by
          simpa [hop] using hcontrol
        rw [hf0] at hf
        exact absurd hf (by simp)
  · exact absurd hok hne

/-- And which registers: the link register of a refused jump. -/
theorem exception_registers (hsync : s.nextPc = s.pc)
    (h : s.executeInstruction = .ok (code, t)) (hne : code ≠ STATUS_OK)
    {r : BitVec 5}
    (hr : ∀ w, s.Fetches w → opcodeOf w = .JAL ∨ opcodeOf w = .JALR →
      r ≠ rd w) : t.rf.read r = s.rf.read r := by
  rcases executeInstruction_cases h with
    ⟨rfl, -, -⟩ | ⟨w, u, hw, hu, ⟨hmis, -, rfl⟩ | ⟨-, hok, -⟩⟩
  · rfl
  · show u.rf.read r = s.rf.read r
    have hcontrol := control_of_misaligned hw hsync hmis
    rcases hu.rf_cases with hrf | ⟨⟨hdest, -⟩, v, hrf⟩
    · rw [hrf]
    · rw [hrf]
      refine RegisterFile.read_write_of_ne _ (hr w hw ?_) v
      -- a branch and MRET have no destination
      rcases hcontrol with hjal | hjalr | hbranch | ⟨hpriv, hf⟩
      · exact .inl hjal
      · exact .inr hjalr
      · exact absurd (.inl hbranch) hdest
      · exact absurd (.inr (.inr (.inl ⟨hpriv, hf⟩))) hdest
  · exact absurd hok hne

end Mcu

end T89Emu
