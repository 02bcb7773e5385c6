/-
Access protection of the CSRs.

The instruction set refuses an access to a CSR that does not exist and a
write to one whose address says that it is read-only. The core looks at
neither: a register CSR instruction goes through its arm whatever the
address is, and comes back illegal in no state (`csr_not_illegal`). So
the promise is kept exactly by the accesses that need no refusal, and
the identification registers hold their reset values exactly as long as
the guest leaves them alone (`csr_protected_iff`).
-/
import T89Emu.Core.Proofs.Decode
import T89Emu.Core.Proofs.Interrupt

namespace T89Emu

open Bytes Cpp Run

variable {L : Layout}

namespace Mcu

-- ================================================ statement vocabulary

/-- The top two bits of the address say that the CSR is read-only. -/
def ReadOnlyCsr (a : U32) : Prop := a.extractLsb' 10 2 = 0b11#2

instance (a : U32) : Decidable (ReadOnlyCsr a) :=
  inferInstanceAs (Decidable (_ = _))

/-- The four registers that identify the machine. -/
def identification : List U32 :=
  [CSR_MVENDORID, CSR_MARCHID, CSR_MIMPID, CSR_MHARTID]

/-- The constructor defines the CSR, and the instruction does not write it
if it is read-only. -/
def AccessPermitted (w : U32) : Prop :=
  csrAddr w ∈ Csr.constructed
    ∧ ¬ (WritesCsr w (csrAddr w) ∧ ReadOnlyCsr (csrAddr w))

/-- An access that is not permitted traps as illegal and changes
nothing. -/
def CsrProtected (s : Mcu L) (w : U32) : Prop :=
  ¬ AccessPermitted w →
    s.executeInstruction = .ok (ILLEGAL_INSTRUCTION, s)

-- ===================================================== what the core does

/-- A register CSR instruction breaks out of the `switch`, whatever the
address. -/
theorem retired_of_csrRegister {s : Mcu L} {w : U32}
    (hcsr : Rv32.IsCsrRegister w) : ∃ t, Retired s w t := by
  have hop : opcodeOf w = .PRIV := opcodeOf_of_opcode hcsr.1
  rcases s.executePriv_cases w with ⟨-, hf, -⟩ | ⟨rf, csr, hr⟩
  · have hfunct : funct3 w = 1 ∨ funct3 w = 2 ∨ funct3 w = 3 := hcsr.2
    rw [hf] at hfunct
    exact absurd hfunct (by decide)
  · exact ⟨_, .system hop hr⟩

/-- It is never called illegal. -/
theorem csr_not_illegal {s t : Mcu L} {w : U32} (hw : s.Fetches w)
    (hcsr : Rv32.IsCsrRegister w) :
    s.executeInstruction ≠ .ok (ILLEGAL_INSTRUCTION, t) := by
  intro h
  obtain ⟨u, hu⟩ := retired_of_csrRegister (s := s) hcsr
  rw [executeInstruction_of_retired hw hu] at h
  split at h
  · have hcode := (Prod.mk.inj (Except.ok.inj h)).1
    exact absurd hcode (by decide)
  · have hcode := (Prod.mk.inj (Except.ok.inj h)).1
    exact absurd hcode (by decide)

/-- An instruction leaves a CSR alone that it does not write. -/
theorem readCsr_executeInstruction {s t : Mcu L} {code a : U32}
    (hno : ∀ w, s.Fetches w → ¬ WritesCsr w a)
    (h : s.executeInstruction = .ok (code, t)) :
    t.csr.readCsr a = s.csr.readCsr a := by
  rcases executeInstruction_cases h with
    ⟨rfl, -, -⟩ | ⟨w, u, hw, hu, ⟨-, -, rfl⟩ | ⟨-, -, rfl⟩⟩
  · rfl
  · exact hu.readCsr (hno w hw)
  · exact hu.readCsr (hno w hw)

/-- The CLINT's cycle and an interrupt entry write four CSRs between
them. -/
theorem readCsr_serviceInterrupts (s : Mcu L) {a : U32}
    (hstatus : a ≠ CSR_MSTATUS) (hip : a ≠ CSR_MIP) (hepc : a ≠ CSR_MEPC)
    (hcause : a ≠ CSR_MCAUSE) :
    s.serviceInterrupts.csr.readCsr a = s.csr.readCsr a := by
  by_cases hdue : s.Due
  · exact (interrupt_frame hdue).2.2.2 a hstatus hip hepc hcause
  · rw [serviceInterrupts_of_not_due hdue]
    exact s.nextCycle_frame.2.2.2.2 a hip

/-- None of them identifies the machine. -/
theorem ne_of_identification {a : U32} (ha : a ∈ identification) :
    a ≠ CSR_MSTATUS ∧ a ≠ CSR_MIP ∧ a ≠ CSR_MEPC ∧ a ≠ CSR_MCAUSE := by
  unfold identification at ha
  simp only [List.mem_cons, List.not_mem_nil, or_false] at ha
  rcases ha with rfl | rfl | rfl | rfl
  · exact ⟨by decide, by decide, by decide, by decide⟩
  · exact ⟨by decide, by decide, by decide, by decide⟩
  · exact ⟨by decide, by decide, by decide, by decide⟩
  · exact ⟨by decide, by decide, by decide, by decide⟩

/-- One cycle of the core. -/
theorem identification_nextInstruction {s t : Mcu L} {a : U32}
    (ha : a ∈ identification)
    (hno : ∀ u, Attempts s u → ∀ w, u.Fetches w → ¬ WritesCsr w a)
    (h : s.nextInstruction = .ok t) : t.csr.readCsr a = s.csr.readCsr a := by
  obtain ⟨hstatus, hip, hepc, hcause⟩ := ne_of_identification ha
  refine nextInstruction_keeps
    (P := fun u => u.csr.readCsr a = s.csr.readCsr a) h
    (s.readCsr_serviceInterrupts hstatus hip hepc hcause)
    (fun u v code hatt hu hv => ?_) fun u code hu => ?_
  · exact (readCsr_executeInstruction (hno u hatt) hv).trans hu
  · exact (readCsr_takeTrap_of_ne u code hstatus hepc hcause).trans hu

-- ================================================================ the run

/-- CSR accesses are protected exactly when there is nothing to refuse:
the CSR is one that the constructor defines, and the instruction does
not write a read-only one. And in a run no instruction of which writes
them, the four identification registers read their reset values in
every state reached. -/
theorem csr_protected_iff (L : Layout) :
    (∀ (s : Mcu L) (w : U32), s.Fetches w → Rv32.IsCsrRegister w →
      (s.CsrProtected w ↔ AccessPermitted w))
    ∧ ∀ (entryPc : U32) (firmware : (L.device .rom).Mem) (n : Nat)
        (s : Mcu L),
      steps nextInstruction n (boot L entryPc firmware) = .ok s →
      (∀ m < n, ∀ u, steps nextInstruction m (boot L entryPc firmware)
          = .ok u → ∀ v, Attempts u v → ∀ w, v.Fetches w →
          ∀ a ∈ identification, ¬ WritesCsr w a) →
      ∀ a ∈ identification, s.csr.readCsr a = Csr.reset.readCsr a := by
  constructor
  · intro s w hw hcsr
    constructor
    · intro h
      by_contra hno
      exact csr_not_illegal hw hcsr (h hno)
    · intro h hno
      exact absurd h hno
  · intro entryPc firmware n
    induction n with
    | zero =>
        intro s h _ a _
        rw [steps_zero, Except.ok.injEq] at h
        rw [← h]
        rfl
    | succ n ih =>
        intro s h hno a ha
        obtain ⟨u, hu, hus⟩ := steps_succ_eq_ok.1 h
        have hbefore := ih u hu (fun m hm => hno m (by omega)) a ha
        rw [← hbefore]
        refine identification_nextInstruction ha (fun v hv w hw => ?_) hus
        exact hno n (by omega) u hu v hv w hw a ha

/-- The program loads 5 and writes it to `mvendorid`, which reads 5 from
then on; the register at 0x7c0, which the constructor does not define,
is read as if it were there. -/
theorem vendor_overwritten :
    ∃ s : Mcu .linker,
      steps nextInstruction 1 (program [0x00500093, 0xf1109073]) = .ok s
        ∧ s.Fetches 0xf1109073 ∧ ¬ AccessPermitted 0xf1109073
        ∧ ¬ s.CsrProtected 0xf1109073
        ∧ s.executeInstruction.map
            (fun r => (r.1, r.2.csr.readCsr CSR_MVENDORID))
          = .ok (STATUS_OK, 5)
        ∧ (program [0x7c002173]).executeInstruction.map (·.1)
          = .ok STATUS_OK := by
  have hrun : (steps nextInstruction 1
      (program [0x00500093, 0xf1109073])).map (fun t =>
        (t.busRead t.pc WORD, t.executeInstruction.map fun r =>
          (r.1, r.2.csr.readCsr CSR_MVENDORID)))
      = .ok (.ok (STATUS_OK, some 0xf1109073), .ok (STATUS_OK, 5)) := by
    decide +kernel
  obtain ⟨s, hs, hobs⟩ := map_eq_ok.1 hrun
  obtain ⟨hfetch, hexec⟩ := Prod.mk.inj hobs
  have hforbidden : ¬ AccessPermitted 0xf1109073 := by
    intro h
    exact h.2 ⟨⟨by decide, .inr ⟨rfl, .inl (by decide)⟩⟩, by decide⟩
  refine ⟨s, hs, hfetch, hforbidden, fun h => ?_, hexec, by decide +kernel⟩
  exact csr_not_illegal (s := s) (t := s) hfetch (by decide)
    (h hforbidden)

/-- A write to `mscratch` needs no refusal, and in the cycle that executes
it the identification registers stay. -/
theorem scratch_write_permitted :
    (program [0x34009073]).CsrProtected 0x34009073
      ∧ ∃ s, steps nextInstruction 1 (program [0x34009073]) = .ok s
        ∧ s.csr.readCsr CSR_MHARTID = 0 := by
  obtain ⟨haccess, hrun⟩ := csr_protected_iff .linker
  have hfetch : (program [0x34009073]).Fetches 0x34009073 := by
    have h : (program [0x34009073]).busRead (program [0x34009073]).pc WORD
        = .ok (STATUS_OK, some 0x34009073) := by decide +kernel
    exact h
  constructor
  · refine (haccess _ _ hfetch (by decide)).2 ⟨by decide, fun h => ?_⟩
    exact absurd h.2 (by decide)
  · have hone : (steps nextInstruction 1 (program [0x34009073])).map
        (fun _ => ()) = .ok () := by decide +kernel
    obtain ⟨s, hs, -⟩ := map_eq_ok.1 hone
    have hfirst : (program [0x34009073]).serviceInterrupts.busRead
        (program [0x34009073]).serviceInterrupts.pc WORD
        = .ok (STATUS_OK, some 0x34009073) := by decide +kernel
    have hexec : (executeInstruction
        (program [0x34009073]).serviceInterrupts).map (·.1)
        = .ok STATUS_OK := by decide +kernel
    refine ⟨s, hs, hrun _ _ 1 s hs ?_ CSR_MHARTID (by decide)⟩
    intro m hm u hu v hv w hw a ha
    obtain rfl : m = 0 := by omega
    rw [steps_zero, Except.ok.injEq] at hu
    subst hu
    cases hv with
    | first =>
        have hword : w = 0x34009073 :=
          Fetches.unique hw hfirst
        subst hword
        rintro ⟨-, ⟨hf, -⟩ | ⟨haddr, -⟩⟩
        · exact absurd hf (by decide)
        · rw [← haddr] at ha
          exact absurd ha (by decide)
    | handler h hne =>
        rw [show boot .linker _ _ = program [0x34009073] from rfl] at h
        rw [h] at hexec
        exact absurd (Except.ok.inj hexec) hne

end Mcu

end T89Emu
