/-
How a failed fetch is reported.

`executeInstruction` fetches with the bus's `read`, which answers as it
does to a load, and hands the answer on. So no failed fetch is reported
with one of the codes for instructions: the trap finds a `LOAD_*` code,
writes it to `mcause` and enters the vector slot of that load fault
(`fetch_fault_reported_as_load`). Loads themselves are reported
correctly (`load_fault_reported`).
-/
import T89Emu.Core.Proofs.Load

namespace T89Emu

open Bytes Cpp Run

variable {L : Layout}

namespace Mcu

-- ================================================ statement vocabulary

/-- The codes that a fetch at the program counter may be refused with. -/
inductive FetchFault (s : Mcu L) : U32 → Prop
  | misaligned (hal : s.pc.toNat % 4 ≠ 0) :
      FetchFault s INSTRUCTION_ADDRESS_MISALIGNED
  | access (hsel : bus.select L.device s.pc = none) :
      FetchFault s INSTRUCTION_ACCESS_FAULT

/-- The code is returned with nothing changed, and the trap is entered for
it: the next instruction runs at its vector slot, and `mcause` holds
it. -/
structure FaultsAs (s : Mcu L) (code : U32) : Prop where
  returned : s.executeInstruction = .ok (code, s)
  entered : ∃ t : Mcu L, t.csr.readCsr CSR_MCAUSE = code
    ∧ t.pc = s.vectorSlot code
    ∧ s.attempt = t.executeInstruction.map fun r => r.2

/-- A failed fetch is reported as the instruction fault it is. -/
def ReportsFetchFault (s : Mcu L) : Prop :=
  ∃ code, s.FetchFault code ∧ s.FaultsAs code

-- ================================================================ refusals

variable {s : Mcu L} {w : U32}

/-- A code that is returned with nothing changed is what the trap is
entered for. -/
theorem faultsAs_of_returned {code : U32} (hne : code ≠ STATUS_OK)
    (h : s.executeInstruction = .ok (code, s)) : s.FaultsAs code := by
  exact ⟨h, s.takeTrap code, readCsr_takeTrap_mcause s code,
    (takeTrap_frame s code).1, attempt_of_exception h hne⟩

/-- A read that is refused is misaligned or meets no device. -/
theorem busRead_refused {addr status : U32} {size : Nat} {v : Option U32}
    (hsize : IsAccessSize size)
    (h : s.busRead addr size = .ok (status, v)) (hne : status ≠ STATUS_OK) :
    status = LOAD_ADDRESS_MISALIGNED ∧ addr.toNat % size ≠ 0
        ∧ (bus.select L.device addr).isSome
      ∨ status = LOAD_ACCESS_FAULT ∧ bus.select L.device addr = none := by
  unfold busRead at h
  cases hsel : bus.select L.device addr with
  | none =>
      rw [Bus.read_of_select_none hsel] at h
      exact .inr ⟨(Prod.mk.inj (Except.ok.inj h)).1.symm, rfl⟩
  | some k =>
      rw [Bus.read_of_select hsel] at h
      have hst := (MemoryDevice.read_status h).resolve_left hne
      refine .inl ⟨hst, fun hal => ?_, rfl⟩
      rw [MemoryDevice.read_eq hsize hal] at h
      obtain ⟨x, -, hx⟩ := bind_eq_ok.1 h
      exact hne (Prod.mk.inj (Except.ok.inj hx)).1.symm

/-- A refused fetch hands on the answer of the bus. -/
theorem executeInstruction_of_refused {status : U32} {v : Option U32}
    (h : s.busRead s.pc WORD = .ok (status, v)) (hne : status ≠ STATUS_OK) :
    s.executeInstruction = .ok (status, s) := by
  unfold executeInstruction
  rw [h, ok_bind]
  exact if_pos hne

/-- So does a refused load. -/
theorem executeInstruction_of_load_refused {status : U32} {v : Option U32}
    (hw : s.Fetches w) (hload : Rv32.IsLoad w)
    (h : s.busRead (s.loadAddr w) (Rv32.loadSize w) = .ok (status, v))
    (hne : status ≠ STATUS_OK) :
    s.executeInstruction = .ok (status, s) := by
  have hop : opcodeOf w = .LOAD := opcodeOf_of_opcode hload.1
  have hraise : s.executeOpcode w = .ok (.raise status s) := by
    rw [← effectiveAddr_of_isLoad hload, ← getMemSize_of_isLoad hload] at h
    unfold executeOpcode
    rw [hop]
    show (s.busRead (s.effectiveAddr w) _ >>= _) = _
    rw [h, ok_bind]
    exact if_pos hne
  rw [executeInstruction_of_fetches hw, hraise]
  rfl

/-- Loads are reported as load faults: misaligned ones, and those that no
device serves. -/
theorem load_fault_reported (s : Mcu L) (w : U32) (hw : s.Fetches w)
    (hload : Rv32.IsLoad w) :
    ((s.loadAddr w).toNat % Rv32.loadSize w ≠ 0 →
        (bus.select L.device (s.loadAddr w)).isSome →
        s.FaultsAs LOAD_ADDRESS_MISALIGNED)
      ∧ (bus.select L.device (s.loadAddr w) = none →
        s.FaultsAs LOAD_ACCESS_FAULT) := by
  refine ⟨fun hal hsome => ?_, fun hsel => ?_⟩
  · obtain ⟨k, hsel⟩ := Option.isSome_iff_exists.1 hsome
    have hread : s.busRead (s.loadAddr w) (Rv32.loadSize w)
        = .ok (LOAD_ADDRESS_MISALIGNED, none) := by
      unfold busRead
      rw [Bus.read_of_select hsel,
        MemoryDevice.read_misaligned (isAccessSize_loadSize hload) hal]
    exact faultsAs_of_returned (by decide)
      (executeInstruction_of_load_refused hw hload hread (by decide))
  · exact faultsAs_of_returned (by decide)
      (executeInstruction_of_load_refused hw hload
        (Bus.read_of_select_none hsel) (by decide))

/-- Another code than the two is no report of the fault. -/
theorem not_reportsFetchFault {status : U32}
    (h : s.executeInstruction = .ok (status, s))
    (hmisaligned : status ≠ INSTRUCTION_ADDRESS_MISALIGNED)
    (haccess : status ≠ INSTRUCTION_ACCESS_FAULT) :
    ¬ s.ReportsFetchFault := by
  rintro ⟨code, hcode, hfaults⟩
  have hreturned := hfaults.returned
  rw [h] at hreturned
  obtain rfl := (Prod.mk.inj (Except.ok.inj hreturned)).1
  cases hcode with
  | misaligned hal => exact hmisaligned rfl
  | access hsel => exact haccess rfl

-- ============================================================== the result

/-- No failed fetch is reported as an instruction fault. It is reported as
the load fault that a load from the same address is. -/
theorem fetch_fault_reported_as_load (s : Mcu L) (status : U32)
    (v : Option U32) (h : s.busRead s.pc WORD = .ok (status, v))
    (hne : status ≠ STATUS_OK) :
    ¬ s.ReportsFetchFault ∧ s.FaultsAs status
      ∧ (status = LOAD_ADDRESS_MISALIGNED ∨ status = LOAD_ACCESS_FAULT)
      ∧ ∀ (t : Mcu L) (w : U32), t.Fetches w → Rv32.IsLoad w →
          Rv32.loadSize w = WORD → t.loadAddr w = s.pc →
          t.FaultsAs status := by
  have hexec := executeInstruction_of_refused h hne
  have hload := busRead_refused isAccessSize_word h hne
  have hcode : status = LOAD_ADDRESS_MISALIGNED
      ∨ status = LOAD_ACCESS_FAULT := hload.imp And.left And.left
  refine ⟨?_, faultsAs_of_returned hne hexec, hcode,
    fun t w hw hl hsize haddr => ?_⟩
  · rcases hcode with rfl | rfl
    · exact not_reportsFetchFault hexec (by decide) (by decide)
    · exact not_reportsFetchFault hexec (by decide) (by decide)
  · have hreported := load_fault_reported t w hw hl
    rw [hsize, haddr] at hreported
    rcases hload with ⟨rfl, hal, hsome⟩ | ⟨rfl, hsel⟩
    · exact hreported.1 hal hsome
    · exact hreported.2 hsel

/-- The jump `jalr x0, 0(x0)` goes to address 0, where there is no device.
The next call enters slot 21, that of load access faults. -/
theorem jump_to_nowhere_load_fault :
    ∃ s : Mcu .linker,
      steps nextInstruction 1 (program [0x00000067]) = .ok s
        ∧ s.pc = 0 ∧ bus.select Layout.linker.device s.pc = none
        ∧ s.busRead s.pc WORD = .ok (LOAD_ACCESS_FAULT, none)
        ∧ s.nextInstruction.map (fun t =>
          (t.csr.readCsr CSR_MCAUSE, t.pc)) = .ok (LOAD_ACCESS_FAULT, 4 * 21)
        ∧ ¬ s.ReportsFetchFault := by
  have hrun : (steps nextInstruction 1 (program [0x00000067])).map (fun t =>
        (t.pc, t.nextInstruction.map fun t =>
          (t.csr.readCsr CSR_MCAUSE, t.pc)))
      = .ok (0, .ok (LOAD_ACCESS_FAULT, 4 * 21)) := by
    decide +kernel
  obtain ⟨s, hs, hobs⟩ := map_eq_ok.1 hrun
  obtain ⟨hpc, hnext⟩ := Prod.mk.inj hobs
  have hsel : bus.select Layout.linker.device s.pc = none := by
    rw [hpc]
    decide
  have hread : s.busRead s.pc WORD = .ok (LOAD_ACCESS_FAULT, none) :=
    Bus.read_of_select_none hsel
  exact ⟨s, hs, hpc, hsel, hread, hnext, not_reportsFetchFault
    (executeInstruction_of_refused hread (by decide)) (by decide)
    (by decide)⟩

/-- The fault is the one of a load from there. -/
theorem jump_to_nowhere_faults :
    ∃ s : Mcu .linker,
      steps nextInstruction 1 (program [0x00000067]) = .ok s
        ∧ s.FaultsAs LOAD_ACCESS_FAULT := by
  have hrun : (steps nextInstruction 1 (program [0x00000067])).map (·.pc)
      = .ok 0 := by
    decide +kernel
  obtain ⟨s, hs, hpc⟩ := map_eq_ok.1 hrun
  have hread : s.busRead s.pc WORD = .ok (LOAD_ACCESS_FAULT, none) := by
    rw [hpc]
    exact Bus.read_of_select_none (by decide)
  exact ⟨s, hs, (fetch_fault_reported_as_load s LOAD_ACCESS_FAULT none hread
    (by decide)).2.1⟩

end Mcu

end T89Emu
