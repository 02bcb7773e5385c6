/-
What one instruction does, said once.

The opcode `switch` is looked at in this file and nowhere above it.
`executeOpcode_raise` says that an arm which returns a code from inside
has changed nothing; `executeOpcode_retire_iff` lists what an arm that
breaks out has done, one constructor of `Retired` for each kind of
effect. What happens after the `switch` depends on one address, the
`target` of the instruction, computed from the state before it
(`update_of_retired`).

`executeInstruction_cases` puts the three exits of the function side by
side, and `nextInstruction_cases` the two ways through a cycle.
-/
import Mathlib.Tactic.Common
import T89Emu.Core.Proofs.Trap
import T89Emu.Memory.Proofs.Device

namespace T89Emu

open Bytes Cpp

variable {L : Layout}

namespace Mcu

-- ================================================ statement vocabulary

/-- Registers, CSRs, memory and program counter are the same. -/
structure Unchanged (s t : Mcu L) : Prop where
  rf : t.rf = s.rf
  csr : t.csr = s.csr
  mem : t.mem = s.mem
  pc : t.pc = s.pc

/-- Register `rd` already holds the value, or is register 0. -/
def Holds (s : Mcu L) (w v : U32) : Prop :=
  rd w = 0#5 ∨ s.rf.read (rd w) = v

-- ================================================================ the bus

/-- The statuses a read can answer. -/
theorem busRead_status {s : Mcu L} {addr code : U32} {size : Nat}
    {v : Option U32} (h : s.busRead addr size = .ok (code, v)) :
    code = STATUS_OK ∨ code = LOAD_ADDRESS_MISALIGNED
      ∨ code = LOAD_ACCESS_FAULT := by
  unfold busRead at h
  cases hsel : bus.select L.device addr with
  | none =>
      rw [Bus.read_of_select_none hsel] at h
      exact .inr (.inr (Prod.mk.inj (Except.ok.inj h)).1.symm)
  | some k =>
      rw [Bus.read_of_select hsel] at h
      rcases MemoryDevice.read_status h with h | h
      · exact .inl h
      · exact .inr (.inl h)

/-- A word that is read lies at a 4-aligned address. -/
theorem busRead_word_aligned {s : Mcu L} {addr : U32} {v : Option U32}
    (h : s.busRead addr WORD = .ok (STATUS_OK, v)) :
    addr.toNat % 4 = 0 := by
  unfold busRead at h
  by_contra hal
  cases hsel : bus.select L.device addr with
  | none =>
      rw [Bus.read_of_select_none hsel] at h
      exact absurd (Prod.mk.inj (Except.ok.inj h)).1 (by decide)
  | some k =>
      rw [Bus.read_of_select hsel,
        MemoryDevice.read_misaligned isAccessSize_word hal] at h
      exact absurd (Prod.mk.inj (Except.ok.inj h)).1 (by decide)

/-- The statuses a write can answer; a write that is not carried out
changes no byte, and it is called illegal by ROM alone. -/
theorem busWrite_status {s : Mcu L} {addr data code : U32} {size : Nat}
    {mem : Heap L.device}
    (h : s.busWrite addr data size = .ok (code, mem)) :
    code = STATUS_OK
      ∨ (code = STORE_ADDRESS_MISALIGNED ∨ code = STORE_ACCESS_FAULT
          ∨ code = ILLEGAL_INSTRUCTION
            ∧ bus.select L.device addr = some .rom)
        ∧ mem = s.mem := by
  unfold busWrite at h
  cases hsel : bus.select L.device addr with
  | none =>
      rw [Bus.write_of_select_none hsel] at h
      obtain ⟨hcode, hmem⟩ := Prod.mk.inj (Except.ok.inj h)
      exact .inr ⟨.inr (.inl hcode.symm), hmem.symm⟩
  | some k =>
      rw [Bus.write_of_select hsel] at h
      obtain ⟨⟨status, mem'⟩, hw, h⟩ := bind_eq_ok.1 h
      obtain ⟨hcode, hmem⟩ := Prod.mk.inj (Except.ok.inj h)
      simp only at hcode hmem
      subst hcode
      rcases MemoryDevice.write_status hw with hok | ⟨hst, hsame⟩
      · exact .inl hok
      · refine .inr ⟨?_, ?_⟩
        · rcases hst with hst | ⟨hst, hcls⟩
          · exact .inl hst
          · rw [L.device_cls] at hcls
            exact .inr (.inr ⟨hst, by rw [hcls]⟩)
        · rw [← hmem, hsame, Function.update_eq_self]

/-- ROM calls every write illegal. -/
theorem busWrite_rom {s : Mcu L} {addr data : U32} {size : Nat}
    (hsel : bus.select L.device addr = some .rom) :
    s.busWrite addr data size = .ok (ILLEGAL_INSTRUCTION, s.mem) := by
  unfold busWrite
  rw [Bus.write_of_select hsel, MemoryDevice.write_rom rfl, ok_bind,
    Function.update_eq_self]

-- ========================================================== the fetch

/-- The word that the fetch delivers. -/
def Fetches (s : Mcu L) (w : U32) : Prop :=
  s.busRead s.pc WORD = .ok (STATUS_OK, some w)

theorem Fetches.unique {s : Mcu L} {w w' : U32} (h : s.Fetches w)
    (h' : s.Fetches w') : w = w' := by
  unfold Fetches at h h'
  rw [h] at h'
  exact Option.some.inj (Prod.mk.inj (Except.ok.inj h')).2

theorem Fetches.aligned {s : Mcu L} {w : U32} (h : s.Fetches w) :
    s.pc.toNat % 4 = 0 := busRead_word_aligned h

-- ================================================= the arms that break out

/-- The address of a load or a store. -/
def effectiveAddr (s : Mcu L) (w : U32) : U32 :=
  s.rf.read (rs1 w) + ImmediateGenerator.getImmediate w

/-- The value that an arm writes back to `rd`. -/
inductive Result (s : Mcu L) (w : U32) : U32 → Prop
  | lui (hop : opcodeOf w = .LUI) :
      Result s w (ImmediateGenerator.getImmediate w)
  | auipc (hop : opcodeOf w = .AUIPC) :
      Result s w (s.pc + ImmediateGenerator.getImmediate w)
  | link (hop : opcodeOf w = .JAL ∨ opcodeOf w = .JALR) :
      Result s w (s.pc + 4)
  | load (hop : opcodeOf w = .LOAD) {v : U32}
      (hv : s.busRead (s.effectiveAddr w)
        (MemControlUnit.getMemSize (funct3 w)) = .ok (STATUS_OK, some v)) :
      Result s w v
  | itype (hop : opcodeOf w = .ITYPE) {v : U32}
      (hv : Alu.execute (s.rf.read (rs1 w))
        (ImmediateGenerator.getImmediate w)
        (AluControlUnit.getAluOperation .ITYPE (funct7 w) (funct3 w))
          = .ok v) :
      Result s w v
  | rtype (hop : opcodeOf w = .RTYPE) {v : U32}
      (hv : Alu.execute (s.rf.read (rs1 w)) (s.rf.read (rs2 w))
        (AluControlUnit.getAluOperation .RTYPE (funct7 w) (funct3 w))
          = .ok v) :
      Result s w v

/-- The state in which an arm breaks out of the `switch`. -/
inductive Retired (s : Mcu L) (w : U32) : Mcu L → Prop
  | writeback {v : U32} (hv : s.Result w v) :
      Retired s w (s.writeReg v (rd w))
  | branch (hop : opcodeOf w = .BTYPE) : Retired s w s
  | store (hop : opcodeOf w = .STORE) {mem : Heap L.device}
      (hw : s.busWrite (s.effectiveAddr w) (s.rf.read (rs2 w))
        (MemControlUnit.getMemSize (funct3 w)) = .ok (STATUS_OK, mem)) :
      Retired s w { s with mem := mem }
  | system (hop : opcodeOf w = .PRIV) {t : Mcu L}
      (ht : s.executePriv w = .retire t 0 0) : Retired s w t

/-- The operand `A` that an arm leaves to the next-pc unit. -/
def operandA (s : Mcu L) (w : U32) : U32 :=
  match opcodeOf w with
  | .JALR => s.rf.read (rs1 w)
  | .BTYPE => s.rf.read (rs1 w)
  | _ => 0

/-- The operand `B`. -/
def operandB (s : Mcu L) (w : U32) : U32 :=
  match opcodeOf w with
  | .BTYPE => s.rf.read (rs2 w)
  | _ => 0

/-- ECALL is the one way to return a code from the PRIV arm; the others
break out with no operands, and change registers and CSRs only. -/
theorem executePriv_cases (s : Mcu L) (w : U32) :
    (s.executePriv w = .raise ECALL_FROM_M_MODE s ∧ funct3 w = 0#3
        ∧ ImmediateGenerator.getImmediate w = ECALL_IMM)
      ∨ ∃ rf csr,
          s.executePriv w = .retire { s with rf := rf, csr := csr } 0 0 := by
  unfold executePriv
  dsimp only
  split
  · next hf =>
    split
    · exact .inr ⟨_, _, rfl⟩
    · split
      · next he => exact .inl ⟨rfl, hf, he⟩
      · exact .inr ⟨_, _, rfl⟩
  · exact .inr ⟨_, _, rfl⟩
  · split
    · exact .inr ⟨_, _, rfl⟩
    · exact .inr ⟨_, _, rfl⟩
  · split
    · exact .inr ⟨_, _, rfl⟩
    · exact .inr ⟨_, _, rfl⟩
  · exact .inr ⟨_, _, rfl⟩

/-- An arm that returns a code from inside has changed nothing. The code
is `ILLEGAL_INSTRUCTION` for the opcodes that no case label names, and
otherwise only when a store hits ROM. -/
theorem executeOpcode_raise {s t : Mcu L} {w code : U32}
    (h : s.executeOpcode w = .ok (.raise code t)) :
    t = s ∧ code ≠ STATUS_OK
      ∧ (code = ILLEGAL_INSTRUCTION → opcodeOf w = .other
        ∨ opcodeOf w = .STORE
          ∧ bus.select L.device (s.effectiveAddr w) = some .rom) := by
  unfold executeOpcode at h
  cases hop : opcodeOf w with
  | LUI => rw [hop] at h; cases h
  | AUIPC => rw [hop] at h; cases h
  | JAL => rw [hop] at h; cases h
  | JALR => rw [hop] at h; cases h
  | BTYPE => rw [hop] at h; cases h
  | LOAD =>
      rw [hop] at h
      obtain ⟨⟨status, v⟩, hr, h⟩ := bind_eq_ok.1 h
      dsimp only at h
      split at h
      · next hne =>
        injection h with h
        injection h with hcode ht
        subst hcode ht
        refine ⟨rfl, hne, fun hill => ?_⟩
        rcases busRead_status hr with hst | hst | hst
        · exact absurd hst hne
        · exact absurd (hst.symm.trans hill) (by decide)
        · exact absurd (hst.symm.trans hill) (by decide)
      · obtain ⟨_, -, h⟩ := bind_eq_ok.1 h
        cases h
  | STORE =>
      rw [hop] at h
      obtain ⟨⟨status, mem⟩, hw, h⟩ := bind_eq_ok.1 h
      dsimp only at h
      split at h
      · next hne =>
        injection h with h
        injection h with hcode ht
        subst hcode ht
        obtain ⟨hst, hmem⟩ := (busWrite_status hw).resolve_left hne
        subst hmem
        refine ⟨rfl, hne, fun hill => .inr ⟨rfl, ?_⟩⟩
        rcases hst with hst | hst | hst
        · exact absurd (hst.symm.trans hill) (by decide)
        · exact absurd (hst.symm.trans hill) (by decide)
        · exact hst.2
      · cases h
  | ITYPE =>
      rw [hop] at h
      obtain ⟨_, -, h⟩ := bind_eq_ok.1 h
      cases h
  | RTYPE =>
      rw [hop] at h
      obtain ⟨_, -, h⟩ := bind_eq_ok.1 h
      cases h
  | PRIV =>
      rw [hop] at h
      injection h with h
      rcases s.executePriv_cases w with ⟨hr, -, -⟩ | ⟨rf, csr, hr⟩
      · rw [hr] at h
        injection h with hcode ht
        subst hcode ht
        exact ⟨rfl, by decide, fun hill => absurd hill (by decide)⟩
      · rw [hr] at h
        cases h
  | other =>
      rw [hop] at h
      injection h with h
      injection h with hcode ht
      subst hcode ht
      exact ⟨rfl, by decide, fun _ => .inl rfl⟩

/-- An arm breaks out of the `switch` in the ways `Retired` lists, and
leaves the operands of its opcode. -/
theorem executeOpcode_retire_iff {s t : Mcu L} {w A B : U32} :
    s.executeOpcode w = .ok (.retire t A B)
      ↔ Retired s w t ∧ A = s.operandA w ∧ B = s.operandB w := by
  constructor
  · intro h
    unfold executeOpcode at h
    unfold operandA operandB
    cases hop : opcodeOf w with
    | LUI =>
        rw [hop] at h
        cases h
        exact ⟨.writeback (.lui hop), rfl, rfl⟩
    | AUIPC =>
        rw [hop] at h
        cases h
        exact ⟨.writeback (.auipc hop), rfl, rfl⟩
    | JAL =>
        rw [hop] at h
        cases h
        exact ⟨.writeback (.link (.inl hop)), rfl, rfl⟩
    | JALR =>
        rw [hop] at h
        cases h
        exact ⟨.writeback (.link (.inr hop)), rfl, rfl⟩
    | BTYPE =>
        rw [hop] at h
        cases h
        exact ⟨.branch hop, rfl, rfl⟩
    | LOAD =>
        rw [hop] at h
        obtain ⟨⟨status, v⟩, hr, h⟩ := bind_eq_ok.1 h
        dsimp only at h
        split at h
        · cases h
        · next hne =>
          obtain ⟨v, hv, h⟩ := bind_eq_ok.1 h
          cases h
          rw [ne_eq, not_not] at hne
          rw [hne, initialized_eq_ok.1 hv] at hr
          exact ⟨.writeback (.load hop hr), rfl, rfl⟩
    | STORE =>
        rw [hop] at h
        obtain ⟨⟨status, mem⟩, hw, h⟩ := bind_eq_ok.1 h
        dsimp only at h
        split at h
        · cases h
        · next hne =>
          cases h
          rw [ne_eq, not_not] at hne
          subst hne
          exact ⟨.store hop hw, rfl, rfl⟩
    | ITYPE =>
        rw [hop] at h
        obtain ⟨v, hv, h⟩ := bind_eq_ok.1 h
        cases h
        exact ⟨.writeback (.itype hop hv), rfl, rfl⟩
    | RTYPE =>
        rw [hop] at h
        obtain ⟨v, hv, h⟩ := bind_eq_ok.1 h
        cases h
        exact ⟨.writeback (.rtype hop hv), rfl, rfl⟩
    | PRIV =>
        rw [hop] at h
        injection h with h
        rcases s.executePriv_cases w with ⟨hr, -, -⟩ | ⟨rf, csr, hr⟩
        · rw [hr] at h
          cases h
        · have hr' := hr
          rw [h] at hr'
          cases hr'
          exact ⟨.system hop h, rfl, rfl⟩
    | other => rw [hop] at h; cases h
  · rintro ⟨hret, rfl, rfl⟩
    unfold executeOpcode operandA operandB
    cases hret with
    | writeback hv =>
        cases hv with
        | lui hop => rw [hop]
        | auipc hop => rw [hop]; rfl
        | link hop =>
            rcases hop with hop | hop
            · rw [hop]; rfl
            · rw [hop]; rfl
        | load hop hv =>
            rw [hop]
            show (s.busRead (s.effectiveAddr w) _ >>= _) = _
            rw [hv]
            rfl
        | itype hop hv =>
            rw [hop]
            show (Alu.execute _ _ _ >>= _) = _
            rw [hv]
            rfl
        | rtype hop hv =>
            rw [hop]
            show (Alu.execute _ _ _ >>= _) = _
            rw [hv]
            rfl
    | branch hop => rw [hop]
    | store hop hw =>
        rw [hop]
        show (s.busWrite (s.effectiveAddr w) _ _ >>= _) = _
        rw [hw]
        rfl
    | system hop ht =>
        rw [hop]
        exact congrArg Except.ok ht

-- ==================================================== the PRIV arm's cases

/-- The MRET word, as the `switch` recognizes it. -/
theorem executePriv_mret {s : Mcu L} {w : U32} (hf : funct3 w = 0#3)
    (hi : ImmediateGenerator.getImmediate w = MRET_IMM) :
    s.executePriv w = .retire { s with csr := mretCsr s.csr } 0 0 := by
  unfold executePriv
  dsimp only
  rw [hf]
  exact if_pos hi

/-- A CSR instruction writes the old value to `rd`, then to the CSR a
value computed after that. -/
def csrWrite (s : Mcu L) (w : U32) (data : RegisterFile → U32) : Mcu L :=
  let t := s.writeReg (s.csr.readCsr (csrAddr w)) (rd w)
  { t with csr := t.csr.writeCsr (csrAddr w) (data t.rf) }

/-- The other CSRs do not see it. -/
theorem readCsr_csrWrite {s : Mcu L} {w a : U32}
    {data : RegisterFile → U32} (h : csrAddr w ≠ a) :
    (s.csrWrite w data).csr.readCsr a = s.csr.readCsr a :=
  Csr.readCsr_writeCsr_of_ne _ _ h.symm

theorem executePriv_csrrw {s : Mcu L} {w : U32} (hf : funct3 w = 1#3) :
    s.executePriv w
      = .retire (s.csrWrite w fun rf => rf.read (rs1 w)) 0 0 := by
  unfold executePriv
  rw [hf]
  rfl

/-- CSRRS and CSRRC leave the CSR alone when `rs1` is register 0. -/
theorem executePriv_csrrs {s : Mcu L} {w : U32} (hf : funct3 w = 2#3) :
    s.executePriv w
      = if rs1 w ≠ 0#5 then
          .retire (s.csrWrite w fun rf =>
            rf.read (rs1 w) ||| s.csr.readCsr (csrAddr w)) 0 0
        else
          .retire (s.writeReg (s.csr.readCsr (csrAddr w)) (rd w)) 0 0 := by
  unfold executePriv
  rw [hf]
  rfl

theorem executePriv_csrrc {s : Mcu L} {w : U32} (hf : funct3 w = 3#3) :
    s.executePriv w
      = if rs1 w ≠ 0#5 then
          .retire (s.csrWrite w fun rf =>
            logicalNot (rf.read (rs1 w)) &&& s.csr.readCsr (csrAddr w)) 0 0
        else
          .retire (s.writeReg (s.csr.readCsr (csrAddr w)) (rd w)) 0 0 := by
  unfold executePriv
  rw [hf]
  rfl

/-- A PRIV word that is neither MRET nor a register CSR instruction, if it
breaks out of the `switch`, does so without a change. -/
theorem executePriv_other {s t : Mcu L} {w : U32}
    (h0 : ¬ (funct3 w = 0#3
      ∧ ImmediateGenerator.getImmediate w = MRET_IMM))
    (h1 : ¬ funct3 w = 1#3) (h2 : ¬ funct3 w = 2#3)
    (h3 : ¬ funct3 w = 3#3) (ht : s.executePriv w = .retire t 0 0) :
    t = s := by
  unfold executePriv at ht
  dsimp only at ht
  split at ht
  · next hf =>
    rw [if_neg fun hi => h0 ⟨hf, hi⟩] at ht
    split at ht
    · cases ht
    · cases ht
      rfl
  · next hf => exact absurd hf h1
  · next hf => exact absurd hf h2
  · next hf => exact absurd hf h3
  · cases ht
    rfl

/-- The instruction writes the CSR: MRET writes `mstatus`, CSRRW the
register it names, CSRRS and CSRRC too unless `rs1` is register 0. -/
def WritesCsr (w a : U32) : Prop :=
  opcodeOf w = .PRIV
    ∧ (funct3 w = 0#3 ∧ ImmediateGenerator.getImmediate w = MRET_IMM
        ∧ a = CSR_MSTATUS
      ∨ csrAddr w = a
        ∧ (funct3 w = 1#3
          ∨ (funct3 w = 2#3 ∨ funct3 w = 3#3) ∧ rs1 w ≠ 0#5))

/-- The other CSRs stay as they are. -/
theorem Retired.readCsr {s t : Mcu L} {w a : U32} (h : Retired s w t)
    (ha : ¬ WritesCsr w a) : t.csr.readCsr a = s.csr.readCsr a := by
  cases h with
  | writeback hv => rfl
  | branch hop => rfl
  | store hop hw => rfl
  | system hop ht =>
      by_cases h0 : funct3 w = 0#3
          ∧ ImmediateGenerator.getImmediate w = MRET_IMM
      · rw [executePriv_mret h0.1 h0.2] at ht
        cases ht
        refine readCsr_mretCsr_of_ne _ fun hstatus => ?_
        exact ha ⟨hop, .inl ⟨h0.1, h0.2, hstatus⟩⟩
      by_cases h1 : funct3 w = 1#3
      · rw [executePriv_csrrw h1] at ht
        cases ht
        exact readCsr_csrWrite fun haddr => ha ⟨hop, .inr ⟨haddr, .inl h1⟩⟩
      by_cases h2 : funct3 w = 2#3
      · rw [executePriv_csrrs h2] at ht
        by_cases hrs : rs1 w ≠ 0#5
        · rw [if_pos hrs] at ht
          cases ht
          exact readCsr_csrWrite fun haddr =>
            ha ⟨hop, .inr ⟨haddr, .inr ⟨.inl h2, hrs⟩⟩⟩
        · rw [if_neg hrs] at ht
          cases ht
          rfl
      by_cases h3 : funct3 w = 3#3
      · rw [executePriv_csrrc h3] at ht
        by_cases hrs : rs1 w ≠ 0#5
        · rw [if_pos hrs] at ht
          cases ht
          exact readCsr_csrWrite fun haddr =>
            ha ⟨hop, .inr ⟨haddr, .inr ⟨.inr h3, hrs⟩⟩⟩
        · rw [if_neg hrs] at ht
          cases ht
          rfl
      · rw [executePriv_other h0 h1 h2 h3 ht]

-- ======================================================== the next pc

/-- The address the instruction goes to, in the state before it. -/
def target (s : Mcu L) (w : U32) : U32 :=
  NextPc.update s.nextPc (ImmediateGenerator.getImmediate w) (opcodeOf w)
    (funct3 w) (s.operandA w) (s.operandB w) s.csr.getMepc

/-- Breaking out, the PRIV arm has changed registers and CSRs only. -/
theorem executePriv_frame {s t : Mcu L} {w A B : U32}
    (h : s.executePriv w = .retire t A B) :
    ∃ rf csr, t = { s with rf := rf, csr := csr } := by
  rcases s.executePriv_cases w with ⟨hr, -, -⟩ | ⟨rf, csr, hr⟩
  · rw [hr] at h
    cases h
  · rw [hr] at h
    cases h
    exact ⟨rf, csr, rfl⟩

/-- What no arm touches. -/
theorem Retired.frame {s t : Mcu L} {w : U32} (h : Retired s w t) :
    t.pc = s.pc ∧ t.nextPc = s.nextPc
      ∧ t.interruptType = s.interruptType := by
  cases h with
  | writeback hv => exact ⟨rfl, rfl, rfl⟩
  | branch hop => exact ⟨rfl, rfl, rfl⟩
  | store hop hw => exact ⟨rfl, rfl, rfl⟩
  | system hop ht =>
      obtain ⟨rf, csr, rfl⟩ := executePriv_frame ht
      exact ⟨rfl, rfl, rfl⟩

/-- The word is a STORE, and the bus has written this memory. -/
def Stores (s : Mcu L) (w : U32) (mem : Heap L.device) : Prop :=
  opcodeOf w = .STORE
    ∧ s.busWrite (s.effectiveAddr w) (s.rf.read (rs2 w))
        (MemControlUnit.getMemSize (funct3 w)) = .ok (STATUS_OK, mem)

/-- Only a STORE writes memory. -/
theorem Retired.mem_cases {s t : Mcu L} {w : U32} (h : Retired s w t) :
    t.mem = s.mem ∨ s.Stores w t.mem := by
  cases h with
  | writeback hv => exact .inl rfl
  | branch hop => exact .inl rfl
  | store hop hw => exact .inr ⟨hop, hw⟩
  | system hop ht =>
      obtain ⟨rf, csr, rfl⟩ := executePriv_frame ht
      exact .inl rfl

/-- The next-pc unit sees the `switch` only through the target. -/
theorem update_of_retired {s t : Mcu L} {w : U32} (h : Retired s w t) :
    NextPc.update t.nextPc (ImmediateGenerator.getImmediate w) (opcodeOf w)
        (funct3 w) (s.operandA w) (s.operandB w) t.csr.getMepc
      = s.target w := by
  unfold target
  rw [h.frame.2.1]
  cases h with
  | writeback hv => rfl
  | branch hop => rfl
  | store hop hw => rfl
  | system hop ht =>
      by_cases hm : funct3 w = 0#3
          ∧ ImmediateGenerator.getImmediate w = MRET_IMM
      · rw [executePriv_mret hm.1 hm.2] at ht
        cases ht
        dsimp only
        -- MRET writes no CSR but `mstatus`
        rw [Csr.getMepc, readCsr_mretCsr_of_ne _ (by decide)]
        rfl
      · unfold NextPc.update
        rw [hop]
        dsimp only
        rw [if_neg hm, if_neg hm]

/-- After the `switch`: the next-pc register takes the target, and the
program counter follows unless the target is misaligned. -/
theorem updatePc_of_retired {s t : Mcu L} {w : U32} (h : Retired s w t) :
    t.updatePc w (s.operandA w) (s.operandB w)
      = if (s.target w).toNat % 4 ≠ 0 then
          (INSTRUCTION_ADDRESS_MISALIGNED, { t with nextPc := s.target w })
        else
          (STATUS_OK, { t with nextPc := s.target w, pc := s.target w }) := by
  unfold updatePc NextPc.calculateNextPc
  rw [update_of_retired h]
  dsimp only
  by_cases hal : (s.target w).toNat % 4 = 0
  · rw [if_neg (not_not.2 hal), if_neg (not_not.2 hal)]
    exact if_neg (not_not.2 rfl)
  · rw [if_pos hal, if_pos hal]
    exact if_pos (by decide : INSTRUCTION_ADDRESS_MISALIGNED ≠ STATUS_OK)

-- ========================================================== one instruction

/-- A fetched word runs its arm. -/
theorem executeInstruction_of_fetches {s : Mcu L} {w : U32}
    (hw : s.Fetches w) :
    s.executeInstruction = s.executeOpcode w >>= fun
      | .raise code s => .ok (code, s)
      | .retire s A B => .ok (s.updatePc w A B) := by
  unfold executeInstruction
  rw [hw]
  rfl

/-- A fetched instruction that breaks out of the `switch`. -/
theorem executeInstruction_of_retired {s t : Mcu L} {w : U32}
    (hw : s.Fetches w) (ht : Retired s w t) :
    s.executeInstruction
      = .ok (if (s.target w).toNat % 4 ≠ 0 then
          (INSTRUCTION_ADDRESS_MISALIGNED, { t with nextPc := s.target w })
        else
          (STATUS_OK,
            { t with nextPc := s.target w, pc := s.target w })) := by
  rw [executeInstruction_of_fetches hw,
    executeOpcode_retire_iff.2 ⟨ht, rfl, rfl⟩, ← updatePc_of_retired ht]
  rfl

/-- What it writes back is in its register afterwards, whatever becomes
of the program counter. -/
theorem executeInstruction_of_result {s : Mcu L} {w v : U32}
    (hw : s.Fetches w) (hv : s.Result w v) :
    ∃ code t, s.executeInstruction = .ok (code, t)
      ∧ t.rf = s.rf.write v (rd w) := by
  rw [executeInstruction_of_retired hw (.writeback hv)]
  split
  · exact ⟨_, _, rfl, rfl⟩
  · exact ⟨_, _, rfl, rfl⟩

/-- An instruction that goes on to the next word, the program counter and
the next-pc register being together. -/
theorem executeInstruction_sequential {s t : Mcu L} {w : U32}
    (hw : s.Fetches w) (ht : Retired s w t) (hsync : s.nextPc = s.pc)
    (htarget : s.target w = s.nextPc + 4) :
    s.executeInstruction
      = .ok (STATUS_OK, { t with nextPc := s.pc + 4, pc := s.pc + 4 }) := by
  rw [hsync] at htarget
  have hpc := hw.aligned
  have hal : (s.target w).toNat % 4 = 0 := by
    rw [htarget, BitVec.toNat_add]
    show (s.pc.toNat + 4) % 2 ^ 32 % 4 = 0
    omega
  rw [executeInstruction_of_retired hw ht, if_neg (not_not.2 hal), htarget]

/-- The exits of `executeInstruction`: a fault of the fetch or a code
returned from inside the `switch`, both with the state untouched, or
the end of the function. -/
theorem executeInstruction_cases {s s' : Mcu L} {code : U32}
    (h : s.executeInstruction = .ok (code, s')) :
    (s' = s ∧ code ≠ STATUS_OK
        ∧ ((∃ v, s.busRead s.pc WORD = .ok (code, v))
          ∨ ∃ w, s.Fetches w ∧ s.executeOpcode w = .ok (.raise code s)))
      ∨ ∃ w t, s.Fetches w ∧ Retired s w t
        ∧ (((s.target w).toNat % 4 ≠ 0
              ∧ code = INSTRUCTION_ADDRESS_MISALIGNED
              ∧ s' = { t with nextPc := s.target w })
          ∨ ((s.target w).toNat % 4 = 0 ∧ code = STATUS_OK
              ∧ s' = { t with nextPc := s.target w, pc := s.target w })) := by
  have h' := h
  unfold executeInstruction at h'
  obtain ⟨⟨status, v⟩, hr, h'⟩ := bind_eq_ok.1 h'
  dsimp only at h'
  by_cases hst : status = STATUS_OK
  · subst hst
    rw [if_neg (not_not.2 rfl)] at h'
    obtain ⟨w, hv, h'⟩ := bind_eq_ok.1 h'
    rw [initialized_eq_ok.1 hv] at hr
    have hw : s.Fetches w := hr
    obtain ⟨arm, ha, h'⟩ := bind_eq_ok.1 h'
    cases arm with
    | raise c t =>
        cases h'
        obtain ⟨rfl, hne, -⟩ := executeOpcode_raise ha
        exact .inl ⟨rfl, hne, .inr ⟨w, hw, ha⟩⟩
    | retire t A B =>
        obtain ⟨ht, rfl, rfl⟩ := executeOpcode_retire_iff.1 ha
        refine .inr ⟨w, t, hw, ht, ?_⟩
        rw [executeInstruction_of_retired hw ht, Except.ok.injEq] at h
        by_cases hal : (s.target w).toNat % 4 = 0
        · rw [if_neg (not_not.2 hal)] at h
          cases h
          exact .inr ⟨hal, rfl, rfl⟩
        · rw [if_pos hal] at h
          cases h
          exact .inl ⟨hal, rfl, rfl⟩
  · rw [if_pos hst] at h'
    cases h'
    exact .inl ⟨rfl, hst, .inl ⟨v, hr⟩⟩

/-- The memory behind an instruction. -/
theorem executeInstruction_mem_cases {s s' : Mcu L} {code : U32}
    (h : s.executeInstruction = .ok (code, s')) :
    s'.mem = s.mem ∨ ∃ w, s.Fetches w ∧ s.Stores w s'.mem := by
  rcases executeInstruction_cases h with
    ⟨rfl, -, -⟩ | ⟨w, t, hw, ht, ⟨-, -, rfl⟩ | ⟨-, -, rfl⟩⟩
  · exact .inl rfl
  · exact ht.mem_cases.imp_right fun hst => ⟨w, hw, hst⟩
  · exact ht.mem_cases.imp_right fun hst => ⟨w, hw, hst⟩

-- ============================================================== one cycle

/-- An instruction that raises no exception is the whole attempt. -/
theorem attempt_of_ok {s t : Mcu L}
    (h : s.executeInstruction = .ok (STATUS_OK, t)) :
    s.attempt = .ok t := by
  unfold attempt
  rw [h]
  rfl

/-- After an exception the instruction in the vector slot is executed,
whatever it raises. -/
theorem attempt_of_exception {s t : Mcu L} {code : U32}
    (h : s.executeInstruction = .ok (code, t)) (hne : code ≠ STATUS_OK) :
    s.attempt = (t.takeTrap code).executeInstruction.map (·.2) := by
  unfold attempt
  rw [h, ok_bind]
  dsimp only
  rw [if_pos hne]
  cases (t.takeTrap code).executeInstruction with
  | error e => rfl
  | ok r => rfl

/-- The two ways through a cycle, by what its instruction raises. -/
theorem nextInstruction_cases {s s' : Mcu L}
    (h : s.nextInstruction = .ok s') :
    s.serviceInterrupts.executeInstruction = .ok (STATUS_OK, s')
      ∨ ∃ code t status,
        s.serviceInterrupts.executeInstruction = .ok (code, t)
          ∧ code ≠ STATUS_OK
          ∧ (t.takeTrap code).executeInstruction = .ok (status, s') := by
  unfold nextInstruction attempt at h
  obtain ⟨⟨code, t⟩, hfirst, h⟩ := bind_eq_ok.1 h
  dsimp only at h
  by_cases hcode : code = STATUS_OK
  · rw [if_neg (not_not.2 hcode)] at h
    cases h
    subst hcode
    exact .inl hfirst
  · rw [if_pos hcode] at h
    obtain ⟨⟨status, u⟩, hsecond, h⟩ := bind_eq_ok.1 h
    cases h
    exact .inr ⟨code, t, status, hfirst, hcode, hsecond⟩

/-- The cycle that starts in `s` executes an instruction in this state:
the first one, or that of the handler after an exception. -/
inductive Attempts (s : Mcu L) : Mcu L → Prop
  | first : Attempts s s.serviceInterrupts
  | handler {t : Mcu L} {code : U32}
      (h : s.serviceInterrupts.executeInstruction = .ok (code, t))
      (hne : code ≠ STATUS_OK) : Attempts s (t.takeTrap code)

/-- What the instructions of a cycle and its trap entries keep, the cycle
keeps. -/
theorem nextInstruction_keeps {P : Mcu L → Prop} {s s' : Mcu L}
    (h : s.nextInstruction = .ok s') (hstart : P s.serviceInterrupts)
    (hexec : ∀ u v code, Attempts s u → P u →
      u.executeInstruction = .ok (code, v) → P v)
    (htrap : ∀ u code, P u → P (u.takeTrap code)) : P s' := by
  rcases nextInstruction_cases h with
    hfirst | ⟨code, u, status, hfirst, hne, hsecond⟩
  · exact hexec _ _ _ .first hstart hfirst
  · have hu : P u := hexec _ _ _ .first hstart hfirst
    exact hexec _ _ _ (.handler hfirst hne) (htrap u code hu) hsecond

end Mcu

end T89Emu
