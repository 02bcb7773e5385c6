/-
The register CSR instructions as atomic read-modify-writes.

Atomic means that `rd` and the CSR get what the instruction set makes of
the values *before* the instruction (`CsrAtomic`). The core writes `rd`
first and reads `rs1` after that, so an instruction that names one
register for both finds the old value of the CSR there; and it forms the
mask of CSRRC with the logical negation, which is 0 or 1.
`csr_atomic_iff` says which values hide that.
-/
import T89Emu.Core.Proofs.Decode

namespace T89Emu

open Bytes Cpp Run

variable {L : Layout}

namespace Mcu

-- ================================================ statement vocabulary

/-- The CSR that the instruction leaves: CSRRS and CSRRC write nothing
when `rs1` is register 0. -/
def csrAfter (s : Mcu L) (w : U32) : Csr :=
  if funct3 w = 0b001 ∨ rs1 w ≠ 0#5 then
    s.csr.writeCsr (csrAddr w) (Rv32.csrUpdate w
      (s.csr.readCsr (csrAddr w)) (s.rf.read (rs1 w)))
  else s.csr

/-- The instruction reads the CSR into `rd`, updates the CSR with the
value that `rs1` had, goes on to the next word and changes nothing
else. -/
def CsrAtomic (s : Mcu L) (w : U32) : Prop :=
  s.executeInstruction = .ok (STATUS_OK,
    { s with
      rf := s.rf.write (s.csr.readCsr (csrAddr w)) (rd w)
      csr := s.csrAfter w
      pc := s.pc + 4
      nextPc := s.pc + 4 })

/-- The values for which it does not show that `rs1` is read after `rd`
is written, and that CSRRC negates its mask logically. -/
structure CsrSafe (s : Mcu L) (w : U32) : Prop where
  csrrw : funct3 w = 0b001 → rs1 w = rd w →
    rd w = 0#5 ∨ s.rf.read (rs1 w) = s.csr.readCsr (csrAddr w)
  csrrs : funct3 w = 0b010 → rs1 w = rd w →
    rs1 w = 0#5 ∨ s.csr.readCsr (csrAddr w) ||| s.rf.read (rs1 w)
      = s.csr.readCsr (csrAddr w)
  csrrc : funct3 w = 0b011 →
    rs1 w = 0#5 ∨ s.csr.readCsr (csrAddr w) &&& ~~~ s.rf.read (rs1 w) = 0
      ∨ rs1 w ≠ rd w ∧ s.rf.read (rs1 w) = 0
        ∧ s.csr.readCsr (csrAddr w) = 1

-- ============================================================= the operands

/-- A register read right after a write. -/
theorem read_write (rf : RegisterFile) (data : U32) (r reg : BitVec 5) :
    (rf.write data reg).read r
      = if r = reg ∧ reg ≠ 0#5 then data else rf.read r := by
  by_cases hr : r = reg
  · subst hr
    by_cases h0 : r = 0#5
    · subst h0
      rw [RegisterFile.write_zero, if_neg fun h => h.2 rfl]
    · rw [rf.read_write_self h0, if_pos ⟨rfl, h0⟩]
  · rw [rf.read_write_of_ne hr, if_neg fun h => hr h.1]

/-- Two writes to one CSR agree exactly when the values do. -/
theorem writeCsr_eq_iff (csr : Csr) (a u v : U32) :
    csr.writeCsr a u = csr.writeCsr a v ↔ u = v := by
  constructor
  · intro h
    rw [← csr.readCsr_writeCsr_self a u, h, csr.readCsr_writeCsr_self]
  · intro h
    rw [h]

/-- The negation of a number masks it out. -/
theorem logicalNot_and_self (v : U32) : logicalNot v &&& v = 0 := by
  unfold logicalNot
  split
  · next h =>
    rw [h]
    rfl
  · exact BitVec.zero_and

/-- The lowest bit is all of 0 and of 1. -/
theorem one_and_eq_self_iff (v : U32) : 1 &&& v = v ↔ v = 0 ∨ v = 1 := by
  have hlow : ((1 : U32) &&& v).toNat = v.toNat % 2 := by
    rw [BitVec.toNat_and]
    exact Nat.one_and_eq_mod_two _
  rw [← BitVec.toNat_inj, hlow, ← BitVec.toNat_inj, ← BitVec.toNat_inj]
  show v.toNat % 2 = v.toNat ↔ v.toNat = 0 ∨ v.toNat = 1
  omega

/-- The logical negation clears the bits of the mask exactly when they
are all the bits there are, or the mask is empty and the value 1. -/
theorem logicalNot_and_eq_iff (x v : U32) :
    logicalNot x &&& v = v &&& ~~~ x ↔ v &&& ~~~ x = 0 ∨ x = 0 ∧ v = 1 := by
  unfold logicalNot
  by_cases hx : x = 0
  · subst hx
    have hall : v &&& ~~~ (0 : U32) = v := BitVec.and_allOnes
    rw [if_pos rfl, hall, one_and_eq_self_iff]
    simp
  · rw [if_neg hx, show (0 : U32) &&& v = 0 from BitVec.zero_and, eq_comm,
      or_iff_left fun h => hx h.1]

-- ============================================================== the result

variable {s : Mcu L} {w : U32}

/-- A register CSR instruction leaves `rd` right and goes on; what is
left to compare is the CSR. -/
theorem csrAtomic_iff_csr {csr : Csr} (hw : s.Fetches w)
    (hsync : s.nextPc = s.pc) (hop : opcodeOf w = .PRIV)
    (hf : funct3 w ≠ 0#3)
    (ht : s.executePriv w = .retire
      { s.writeReg (s.csr.readCsr (csrAddr w)) (rd w) with csr := csr } 0 0) :
    s.CsrAtomic w ↔ csr = s.csrAfter w := by
  have htarget : s.target w = s.nextPc + 4 := by
    unfold target NextPc.update
    rw [hop]
    exact if_neg fun h => hf h.1
  have hexec := executeInstruction_sequential hw (.system hop ht) hsync
    htarget
  unfold CsrAtomic
  rw [hexec]
  constructor
  · intro h
    exact congrArg (fun r => r.2.csr) (Except.ok.inj h)
  · intro h
    rw [h]
    rfl

/-- One that writes its CSR writes a value computed after `rd` was
written, to be compared with the one computed before. -/
theorem csrAtomic_iff_data {data : RegisterFile → U32} (hw : s.Fetches w)
    (hsync : s.nextPc = s.pc) (hop : opcodeOf w = .PRIV)
    (hf : funct3 w ≠ 0#3) (hwrites : funct3 w = 0b001 ∨ rs1 w ≠ 0#5)
    (ht : s.executePriv w = .retire (s.csrWrite w data) 0 0) :
    s.CsrAtomic w
      ↔ data (s.rf.write (s.csr.readCsr (csrAddr w)) (rd w))
        = Rv32.csrUpdate w (s.csr.readCsr (csrAddr w))
            (s.rf.read (rs1 w)) := by
  refine (csrAtomic_iff_csr hw hsync hop hf ht).trans ?_
  unfold csrAfter
  rw [if_pos hwrites]
  exact writeCsr_eq_iff _ _ _ _

/-- CSRRW. -/
theorem csrrw_atomic_iff (hw : s.Fetches w) (hsync : s.nextPc = s.pc)
    (hop : opcodeOf w = .PRIV) (hf : funct3 w = 0b001) :
    s.CsrAtomic w ↔ (rs1 w = rd w →
      rd w = 0#5 ∨ s.rf.read (rs1 w) = s.csr.readCsr (csrAddr w)) := by
  have hupdate : ∀ old x, Rv32.csrUpdate w old x = x := fun _ _ => if_pos hf
  rw [csrAtomic_iff_data hw hsync hop (by rw [hf]; decide) (.inl hf)
    (executePriv_csrrw hf), hupdate, read_write]
  by_cases halias : rs1 w = rd w
  · by_cases h0 : rd w = 0#5
    · rw [if_neg fun h => h.2 h0]
      simp [h0]
    · rw [if_pos ⟨halias, h0⟩]
      simp [halias, h0, eq_comm]
  · rw [if_neg fun h => halias h.1]
    simp [halias]

/-- CSRRS and CSRRC leave the CSR alone when `rs1` is register 0. -/
theorem csrAtomic_of_no_write (hw : s.Fetches w) (hsync : s.nextPc = s.pc)
    (hop : opcodeOf w = .PRIV) (hf : funct3 w = 0b010 ∨ funct3 w = 0b011)
    (hrs : rs1 w = 0#5) : s.CsrAtomic w := by
  have hne : funct3 w ≠ 0#3 ∧ funct3 w ≠ 0b001 := by
    rcases hf with hf | hf
    · rw [hf]
      decide
    · rw [hf]
      decide
  have hafter : s.csr = s.csrAfter w := by
    unfold csrAfter
    rw [if_neg fun h => h.elim hne.2 fun h => h hrs]
  have hpriv : s.executePriv w
      = .retire (s.writeReg (s.csr.readCsr (csrAddr w)) (rd w)) 0 0 := by
    rcases hf with hf | hf
    · rw [executePriv_csrrs hf, if_neg (not_not.2 hrs)]
    · rw [executePriv_csrrc hf, if_neg (not_not.2 hrs)]
  exact (csrAtomic_iff_csr hw hsync hop hne.1 hpriv).2 hafter

/-- CSRRS. -/
theorem csrrs_atomic_iff (hw : s.Fetches w) (hsync : s.nextPc = s.pc)
    (hop : opcodeOf w = .PRIV) (hf : funct3 w = 0b010) :
    s.CsrAtomic w ↔ (rs1 w = rd w →
      rs1 w = 0#5 ∨ s.csr.readCsr (csrAddr w) ||| s.rf.read (rs1 w)
        = s.csr.readCsr (csrAddr w)) := by
  by_cases hrs : rs1 w = 0#5
  · exact iff_of_true (csrAtomic_of_no_write hw hsync hop (.inl hf) hrs)
      fun _ => .inl hrs
  have hupdate : ∀ old x, Rv32.csrUpdate w old x = old ||| x := fun _ _ => by
    unfold Rv32.csrUpdate
    rw [show Rv32.funct3 w = 2 from hf]
    rfl
  have hpriv := executePriv_csrrs (s := s) hf
  rw [if_pos hrs] at hpriv
  rw [csrAtomic_iff_data hw hsync hop (by rw [hf]; decide) (.inr hrs) hpriv,
    hupdate, read_write]
  by_cases halias : rs1 w = rd w
  · have h0 : rd w ≠ 0#5 := fun h => hrs (halias.trans h)
    rw [if_pos ⟨halias, h0⟩, BitVec.or_self, eq_comm]
    simp [halias, h0]
  · rw [if_neg fun h => halias h.1, BitVec.or_comm]
    simp [halias]

/-- CSRRC. -/
theorem csrrc_atomic_iff (hw : s.Fetches w) (hsync : s.nextPc = s.pc)
    (hop : opcodeOf w = .PRIV) (hf : funct3 w = 0b011) :
    s.CsrAtomic w ↔ rs1 w = 0#5
      ∨ s.csr.readCsr (csrAddr w) &&& ~~~ s.rf.read (rs1 w) = 0
      ∨ rs1 w ≠ rd w ∧ s.rf.read (rs1 w) = 0
        ∧ s.csr.readCsr (csrAddr w) = 1 := by
  by_cases hrs : rs1 w = 0#5
  · exact iff_of_true (csrAtomic_of_no_write hw hsync hop (.inr hf) hrs)
      (.inl hrs)
  have hupdate : ∀ old x, Rv32.csrUpdate w old x = old &&& ~~~ x :=
    fun _ _ => by
      unfold Rv32.csrUpdate
      rw [show Rv32.funct3 w = 3 from hf]
      rfl
  have hpriv := executePriv_csrrc (s := s) hf
  rw [if_pos hrs] at hpriv
  rw [csrAtomic_iff_data hw hsync hop (by rw [hf]; decide) (.inr hrs) hpriv,
    hupdate, read_write, or_iff_right hrs]
  by_cases halias : rs1 w = rd w
  · have h0 : rd w ≠ 0#5 := fun h => hrs (halias.trans h)
    rw [if_pos ⟨halias, h0⟩, logicalNot_and_self, eq_comm]
    simp [halias]
  · rw [if_neg fun h => halias h.1, logicalNot_and_eq_iff]
    simp [halias]

/-- A register CSR instruction is an atomic read-modify-write exactly when
the values hide that `rs1` is read late and that CSRRC negates its mask
logically. -/
theorem csr_atomic_iff (s : Mcu L) (w : U32) (hw : s.Fetches w)
    (hsync : s.nextPc = s.pc) (hcsr : Rv32.IsCsrRegister w) :
    s.CsrAtomic w ↔ s.CsrSafe w := by
  have hop : opcodeOf w = .PRIV := opcodeOf_of_opcode hcsr.1
  have hf : funct3 w = 1 ∨ funct3 w = 2 ∨ funct3 w = 3 := hcsr.2
  rcases hf with hf | hf | hf
  · rw [csrrw_atomic_iff hw hsync hop hf]
    refine ⟨fun h => ⟨fun _ => h, fun h2 => ?_, fun h3 => ?_⟩,
      fun h => h.csrrw hf⟩
    · exact absurd (hf.symm.trans h2) (by decide)
    · exact absurd (hf.symm.trans h3) (by decide)
  · rw [csrrs_atomic_iff hw hsync hop hf]
    refine ⟨fun h => ⟨fun h1 => ?_, fun _ => h, fun h3 => ?_⟩,
      fun h => h.csrrs hf⟩
    · exact absurd (hf.symm.trans h1) (by decide)
    · exact absurd (hf.symm.trans h3) (by decide)
  · rw [csrrc_atomic_iff hw hsync hop hf]
    refine ⟨fun h => ⟨fun h1 => ?_, fun h2 => ?_, fun _ => h⟩,
      fun h => h.csrrc hf⟩
    · exact absurd (hf.symm.trans h1) (by decide)
    · exact absurd (hf.symm.trans h2) (by decide)

/-- After `li x1, 5`, the swap `csrrw x1, mscratch, x1` leaves the old
value in both. -/
theorem swap_loses_value :
    ∃ s : Mcu .linker,
      steps nextInstruction 1 (program [0x00500093, 0x340090f3]) = .ok s
        ∧ s.Fetches 0x340090f3 ∧ s.nextPc = s.pc ∧ s.rf.read 1#5 = 5
        ∧ s.executeInstruction.map (fun r =>
          (r.2.csr.readCsr 0x340, r.2.rf.read 1#5)) = .ok (0, 0)
        ∧ ¬ s.CsrAtomic 0x340090f3 := by
  have hrun : (steps nextInstruction 1
      (program [0x00500093, 0x340090f3])).map (fun t =>
        (t.busRead t.pc WORD, t.nextPc == t.pc, t.rf.read 1#5,
          t.executeInstruction.map fun r =>
            (r.2.csr.readCsr 0x340, r.2.rf.read 1#5)))
      = .ok (.ok (STATUS_OK, some 0x340090f3), true, 5, .ok (0, 0)) := by
    decide +kernel
  obtain ⟨s, hs, hobs⟩ := map_eq_ok.1 hrun
  obtain ⟨hfetch, hobs⟩ := Prod.mk.inj hobs
  obtain ⟨hsync, hobs⟩ := Prod.mk.inj hobs
  obtain ⟨hx1, hexec⟩ := Prod.mk.inj hobs
  refine ⟨s, hs, hfetch, beq_iff_eq.1 hsync, hx1, hexec, fun h => ?_⟩
  unfold CsrAtomic at h
  rw [h] at hexec
  have hcsr : (s.csrAfter 0x340090f3).readCsr 0x340 = s.rf.read 1#5 :=
    s.csr.readCsr_writeCsr_self _ _
  have hzero := (Prod.mk.inj (Except.ok.inj hexec)).1
  dsimp only at hzero
  rw [hcsr, hx1] at hzero
  exact absurd hzero (by decide)

/-- After `li x1, 8`, `csrrs x0, mstatus, x1` is atomic. -/
theorem set_bit_atomic :
    ∃ s : Mcu .linker,
      steps nextInstruction 1 (program [0x00800093, 0x3000a073]) = .ok s
        ∧ s.CsrAtomic 0x3000a073 := by
  have hrun : (steps nextInstruction 1
      (program [0x00800093, 0x3000a073])).map (fun t =>
        (t.busRead t.pc WORD, t.nextPc == t.pc))
      = .ok (.ok (STATUS_OK, some 0x3000a073), true) := by
    decide +kernel
  obtain ⟨s, hs, hobs⟩ := map_eq_ok.1 hrun
  obtain ⟨hfetch, hsync⟩ := Prod.mk.inj hobs
  refine ⟨s, hs, (csr_atomic_iff s 0x3000a073 hfetch (beq_iff_eq.1 hsync)
    (by decide)).2 ⟨fun h => ?_, fun _ h => ?_, fun h => ?_⟩⟩
  · exact absurd h (by decide)
  · exact absurd h (by decide)
  · exact absurd h (by decide)

end Mcu

end T89Emu
