/-
Precise exceptions.

An exception is precise when the registers, the CSRs, the memory and the
program counter are as before the instruction (`Precise`). Faulting
fetches and codes returned from inside the opcode `switch` are: they
leave the whole state alone (`executeInstruction_cases`).

# The exception that is not

The alignment of the next pc is looked at after the arm of the `switch`
has done its work, so a jump to a misaligned address has already written
its link register when it is reported, and MRET to a misaligned `mepc`
has already changed `mstatus`. Such an exception is precise only where
the work happened to be none (`NothingToWrite`), and `precise_iff` says
that there is no other cause of imprecision.
-/
import T89Emu.Core.Proofs.Step

namespace T89Emu

open Bytes Cpp

variable {L : Layout}

namespace Mcu

-- ================================================ statement vocabulary

/-- An exception of the next instruction leaves everything as it was. -/
def Precise (s : Mcu L) : Prop :=
  ∀ code s', s.executeInstruction = .ok (code, s') → code ≠ STATUS_OK →
    Unchanged s s'

/-- The bytes that a store would write are there already, if it can be
carried out at all. -/
def AlreadyStored (s : Mcu L) (w : U32) : Prop :=
  let size := MemControlUnit.getMemSize (funct3 w)
  let addr := s.effectiveAddr w
  ∀ k mem, bus.select L.device addr = some k →
    (L.device k).write (s.mem k) addr (s.rf.read (rs2 w)) size
      = .ok (STATUS_OK, mem) →
    ∀ i : Fin (L.device k).deviceSize.toNat,
      (L.device k).getAddress addr ≤ i →
      i < (L.device k).getAddress addr + size →
      s.mem k i = byteOf (s.rf.read (rs2 w))
        (i - (L.device k).getAddress addr)

/-- MRET and the CSR instructions find what they would write. -/
structure SystemIdle (s : Mcu L) (w : U32) : Prop where
  mret : funct3 w = 0#3 → ImmediateGenerator.getImmediate w = MRET_IMM →
    ∀ i ∈ [3, 7, 11, 12], (s.csr.readCsr CSR_MSTATUS).getLsbD i = true
  csrrw : funct3 w = 1#3 → s.Holds w (s.csr.readCsr (csrAddr w))
    ∧ s.csr.readCsr (csrAddr w) = s.rf.read (rs1 w)
  csrrs : funct3 w = 2#3 → s.Holds w (s.csr.readCsr (csrAddr w))
    ∧ (rs1 w ≠ 0#5 → s.csr.readCsr (csrAddr w)
      = s.rf.read (rs1 w) ||| s.csr.readCsr (csrAddr w))
  csrrc : funct3 w = 3#3 → s.Holds w (s.csr.readCsr (csrAddr w))
    ∧ (rs1 w ≠ 0#5 → s.csr.readCsr (csrAddr w)
      = logicalNot (s.rf.read (rs1 w)) &&& s.csr.readCsr (csrAddr w))

/-- The instruction finds everything it would write already in place. -/
structure NothingToWrite (s : Mcu L) (w : U32) : Prop where
  register : ∀ v, s.Result w v → s.Holds w v
  bytes : opcodeOf w = .STORE → s.AlreadyStored w
  system : opcodeOf w = .PRIV → s.SystemIdle w

-- ======================================================= one arm at a time

/-- Writing back what `rd` holds changes nothing. -/
theorem writeReg_unchanged_iff {s : Mcu L} {w v : U32} :
    Unchanged s (s.writeReg v (rd w)) ↔ s.Holds w v := by
  refine Iff.trans ?_ (s.rf.write_eq_self_iff v (rd w))
  exact ⟨fun h => h.rf, fun h => ⟨h, rfl, rfl, rfl⟩⟩

private theorem getMemSize_cases (f : BitVec 3) :
    MemControlUnit.getMemSize f = 0
      ∨ IsAccessSize (MemControlUnit.getMemSize f) := by
  revert f
  decide

/-- A store that is carried out changes nothing exactly when its bytes
are there. -/
theorem store_unchanged_iff {s : Mcu L} {w : U32} :
    (∀ mem, s.busWrite (s.effectiveAddr w) (s.rf.read (rs2 w))
        (MemControlUnit.getMemSize (funct3 w)) = .ok (STATUS_OK, mem) →
      Unchanged s { s with mem := mem }) ↔ s.AlreadyStored w := by
  have hsize := getMemSize_cases (funct3 w)
  unfold AlreadyStored busWrite
  dsimp only
  constructor
  · intro h k mem hsel hw
    refine (MemoryDevice.write_eq_self_iff hsize hw).1 ?_
    have hun := (h (Function.update s.mem k mem) (by
      rw [Bus.write_of_select hsel, hw]
      rfl)).mem
    have hk : Function.update s.mem k mem k = s.mem k := congrFun hun k
    rwa [Function.update_self] at hk
  · intro h mem hw
    refine ⟨rfl, rfl, ?_, rfl⟩
    show mem = s.mem
    cases hsel : bus.select L.device (s.effectiveAddr w) with
    | none =>
        rw [Bus.write_of_select_none hsel] at hw
        exact absurd (Prod.mk.inj (Except.ok.inj hw)).1 (by decide)
    | some k =>
        rw [Bus.write_of_select hsel] at hw
        obtain ⟨⟨status, m⟩, hw, heq⟩ := bind_eq_ok.1 hw
        obtain ⟨hst, hheap⟩ := Prod.mk.inj (Except.ok.inj heq)
        dsimp only at hst hheap
        subst hst
        have hm := (MemoryDevice.write_eq_self_iff hsize hw).2 (h k m hsel hw)
        rw [← hheap, hm, Function.update_eq_self]

/-- A CSR instruction changes nothing exactly when both its results are in
place. -/
theorem csrWrite_unchanged_iff {s : Mcu L} {w : U32}
    (data : RegisterFile → U32) :
    Unchanged s (s.csrWrite w data)
      ↔ s.Holds w (s.csr.readCsr (csrAddr w))
        ∧ s.csr.readCsr (csrAddr w) = data s.rf := by
  constructor
  · intro h
    have hrf : s.rf.write (s.csr.readCsr (csrAddr w)) (rd w) = s.rf := h.rf
    have hcsr : s.csr.writeCsr (csrAddr w)
        (data (s.rf.write (s.csr.readCsr (csrAddr w)) (rd w)))
          = s.csr := h.csr
    refine ⟨(s.rf.write_eq_self_iff _ _).1 hrf, ?_⟩
    rw [hrf] at hcsr
    exact (s.csr.writeCsr_eq_self_iff _ _).1 hcsr
  · rintro ⟨hholds, hold⟩
    have hrf : s.rf.write (s.csr.readCsr (csrAddr w)) (rd w) = s.rf :=
      (s.rf.write_eq_self_iff _ _).2 hholds
    refine ⟨hrf, ?_, rfl, rfl⟩
    show s.csr.writeCsr (csrAddr w)
      (data (s.rf.write (s.csr.readCsr (csrAddr w)) (rd w))) = s.csr
    rw [hrf]
    exact (s.csr.writeCsr_eq_self_iff _ _).2 hold

/-- CSRRS and CSRRC change nothing exactly when `rd` holds the old
value, and the CSR the new one if it is written. -/
private theorem conditional_unchanged_iff {s : Mcu L} {w : U32}
    (data : RegisterFile → U32) :
    (∀ t, (if rs1 w ≠ 0#5 then (.retire (s.csrWrite w data) 0 0 : Arm L)
          else .retire (s.writeReg (s.csr.readCsr (csrAddr w)) (rd w)) 0 0)
        = .retire t 0 0 → Unchanged s t)
      ↔ s.Holds w (s.csr.readCsr (csrAddr w))
        ∧ (rs1 w ≠ 0#5 → s.csr.readCsr (csrAddr w) = data s.rf) := by
  by_cases hrs : rs1 w ≠ 0#5
  · rw [if_pos hrs]
    refine Iff.trans ⟨fun h => h _ rfl, fun h t ht => ?_⟩
      ((csrWrite_unchanged_iff data).trans
        (and_congr_right' ⟨fun h _ => h, fun h => h hrs⟩))
    cases ht
    exact h
  · rw [if_neg hrs]
    refine Iff.trans ⟨fun h => h _ rfl, fun h t ht => ?_⟩
      (writeReg_unchanged_iff.trans
        (and_iff_left fun h => absurd h hrs).symm)
    cases ht
    exact h

/-- The PRIV arm changes nothing exactly when it finds what it would
write. -/
theorem system_unchanged_iff {s : Mcu L} {w : U32} :
    (∀ t, s.executePriv w = .retire t 0 0 → Unchanged s t)
      ↔ s.SystemIdle w := by
  constructor
  · intro h
    exact {
      mret := fun hf hi =>
        (mretCsr_eq_self_iff _).1 (h _ (executePriv_mret hf hi)).csr
      csrrw := fun hf =>
        (csrWrite_unchanged_iff _).1 (h _ (executePriv_csrrw hf))
      csrrs := fun hf => by
        rw [executePriv_csrrs hf] at h
        exact (conditional_unchanged_iff _).1 h
      csrrc := fun hf => by
        rw [executePriv_csrrc hf] at h
        exact (conditional_unchanged_iff _).1 h }
  · intro h t ht
    by_cases h0 : funct3 w = 0#3
        ∧ ImmediateGenerator.getImmediate w = MRET_IMM
    · rw [executePriv_mret h0.1 h0.2] at ht
      cases ht
      exact ⟨rfl, (mretCsr_eq_self_iff _).2 (h.mret h0.1 h0.2), rfl, rfl⟩
    by_cases h1 : funct3 w = 1#3
    · rw [executePriv_csrrw h1] at ht
      cases ht
      exact (csrWrite_unchanged_iff _).2 (h.csrrw h1)
    by_cases h2 : funct3 w = 2#3
    · rw [executePriv_csrrs h2] at ht
      exact (conditional_unchanged_iff _).2 (h.csrrs h2) t ht
    by_cases h3 : funct3 w = 3#3
    · rw [executePriv_csrrc h3] at ht
      exact (conditional_unchanged_iff _).2 (h.csrrc h3) t ht
    · rw [executePriv_other h0 h1 h2 h3 ht]
      exact ⟨rfl, rfl, rfl, rfl⟩

/-- Breaking out of the `switch` changes nothing exactly when there is
nothing to write. -/
theorem retired_unchanged_iff {s : Mcu L} {w : U32} :
    (∀ t, Retired s w t → Unchanged s t) ↔ s.NothingToWrite w := by
  constructor
  · intro h
    exact {
      register := fun v hv => writeReg_unchanged_iff.1 (h _ (.writeback hv))
      bytes := fun hop =>
        store_unchanged_iff.1 fun mem hw => h _ (.store hop hw)
      system := fun hop =>
        system_unchanged_iff.1 fun t ht => h t (.system hop ht) }
  · intro h t ht
    cases ht with
    | writeback hv => exact writeReg_unchanged_iff.2 (h.register _ hv)
    | branch hop => exact ⟨rfl, rfl, rfl, rfl⟩
    | store hop hw => exact store_unchanged_iff.2 (h.bytes hop) _ hw
    | system hop ht => exact system_unchanged_iff.2 (h.system hop) t ht

-- ============================================================== the result

/-- Exceptions are precise in a state exactly when the instruction there,
if its next pc is misaligned, finds everything it would write already
in place. -/
theorem precise_iff (s : Mcu L) :
    s.Precise ↔ ∀ w, s.Fetches w → (s.target w).toNat % 4 ≠ 0 →
      s.NothingToWrite w := by
  constructor
  · intro h w hw hal
    refine retired_unchanged_iff.1 fun t ht => ?_
    have hexec := executeInstruction_of_retired hw ht
    rw [if_pos hal] at hexec
    have hun := h _ _ hexec (by decide)
    exact ⟨hun.rf, hun.csr, hun.mem, hun.pc⟩
  · intro h code s' hexec hcode
    rcases executeInstruction_cases hexec with
      ⟨rfl, -, -⟩ | ⟨w, t, hw, ht, ⟨hal, -, rfl⟩ | ⟨-, hok, -⟩⟩
    · exact ⟨rfl, rfl, rfl, rfl⟩
    · have hun := retired_unchanged_iff.2 (h w hw hal) t ht
      exact ⟨hun.rf, hun.csr, hun.mem, hun.pc⟩
    · exact absurd hok hcode

/-- `jal x1, 2` as the first instruction: the jump is reported as
misaligned, and `x1` holds the return address already. -/
theorem misaligned_jump_links :
    let s := program [0x002000ef]
    s.executeInstruction.map (fun r => (r.1, r.2.rf.read 1#5))
        = .ok (INSTRUCTION_ADDRESS_MISALIGNED, 0x80000004)
      ∧ s.rf.read 1#5 = 0 ∧ ¬ s.Precise := by
  intro s
  have hexec : s.executeInstruction.map (fun r => (r.1, r.2.rf.read 1#5))
      = .ok (INSTRUCTION_ADDRESS_MISALIGNED, 0x80000004) := by
    decide +kernel
  have hx1 : s.rf.read 1#5 = 0 := rfl
  refine ⟨hexec, hx1, fun hprecise => ?_⟩
  obtain ⟨⟨code, s'⟩, hs', hr⟩ := map_eq_ok.1 hexec
  obtain ⟨hcode, hlink⟩ := Prod.mk.inj hr
  dsimp only at hcode hlink
  subst hcode
  rw [(hprecise _ s' hs' (by decide)).rf, hx1] at hlink
  exact absurd hlink (by decide)

end Mcu

end T89Emu
