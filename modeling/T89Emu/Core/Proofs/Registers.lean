/-
Which registers an instruction changes.

An arm of the opcode `switch` writes at most one register, the one that
the word's `rd` field names, and some write none (`Retired.rf_cases`).
The rest of `executeInstruction` touches no register at all, and neither
do trap entry and the CLINT's cycle. That register 0 holds 0 is carried
by the register file itself.
-/
import T89Emu.Core.Proofs.Step

namespace T89Emu

open Bytes Cpp Run

variable {L : Layout}

namespace Mcu

-- ================================================ statement vocabulary

/-- The words whose `rd` field names no destination: branches, stores,
ECALL and MRET, and those under an unknown opcode. -/
def NoDestination (w : U32) : Prop :=
  opcodeOf w = .BTYPE ∨ opcodeOf w = .STORE
    ∨ opcodeOf w = .PRIV ∧ funct3 w = 0#3 ∨ opcodeOf w = .other

/-- The load is refused by the bus. -/
def LoadFails (s : Mcu L) (w : U32) : Prop :=
  opcodeOf w = .LOAD ∧ ∃ code v,
    s.busRead (s.effectiveAddr w) (MemControlUnit.getMemSize (funct3 w))
      = .ok (code, v) ∧ code ≠ STATUS_OK

-- ====================================================== one arm at a time

/-- The PRIV arm writes `rd` or no register; ECALL and MRET write
none. -/
theorem executePriv_rf_cases {s t : Mcu L} {w : U32}
    (ht : s.executePriv w = .retire t 0 0) :
    t.rf = s.rf ∨ funct3 w ≠ 0#3 ∧ ∃ v, t.rf = s.rf.write v (rd w) := by
  by_cases h0 : funct3 w = 0#3
      ∧ ImmediateGenerator.getImmediate w = MRET_IMM
  · rw [executePriv_mret h0.1 h0.2] at ht
    cases ht
    exact .inl rfl
  by_cases h1 : funct3 w = 1#3
  · rw [executePriv_csrrw h1] at ht
    cases ht
    exact .inr ⟨by rw [h1]; decide, _, rfl⟩
  by_cases h2 : funct3 w = 2#3
  · rw [executePriv_csrrs h2] at ht
    split at ht
    · cases ht
      exact .inr ⟨by rw [h2]; decide, _, rfl⟩
    · cases ht
      exact .inr ⟨by rw [h2]; decide, _, rfl⟩
  by_cases h3 : funct3 w = 3#3
  · rw [executePriv_csrrc h3] at ht
    split at ht
    · cases ht
      exact .inr ⟨by rw [h3]; decide, _, rfl⟩
    · cases ht
      exact .inr ⟨by rw [h3]; decide, _, rfl⟩
  · rw [executePriv_other h0 h1 h2 h3 ht]
    exact .inl rfl

/-- A result is written back by the opcodes that name a destination, and
by a load only when the bus has delivered. -/
theorem Result.destination {s : Mcu L} {w v : U32} (h : s.Result w v) :
    ¬ NoDestination w ∧ ¬ s.LoadFails w := by
  have hdest : ∀ {o : Opcode}, opcodeOf w = o →
      o ∉ [Opcode.BTYPE, .STORE, .PRIV, .other] → ¬ NoDestination w := by
    rintro o rfl hnot (h | h | h | h)
    · simp [h] at hnot
    · simp [h] at hnot
    · simp [h.1] at hnot
    · simp [h] at hnot
  have hplain : ∀ {o : Opcode}, opcodeOf w = o → o ≠ .LOAD →
      o ∉ [Opcode.BTYPE, .STORE, .PRIV, .other] →
      ¬ NoDestination w ∧ ¬ s.LoadFails w := fun hop hload hnot =>
    ⟨hdest hop hnot, fun hfail => hload (hop.symm.trans hfail.1)⟩
  cases h with
  | lui hop => exact hplain hop nofun (by decide)
  | auipc hop => exact hplain hop nofun (by decide)
  | link hop =>
      rcases hop with hop | hop
      · exact hplain hop nofun (by decide)
      · exact hplain hop nofun (by decide)
  | load hop hv =>
      refine ⟨hdest hop (by decide), ?_⟩
      rintro ⟨-, code, u, hu, hne⟩
      rw [hv] at hu
      exact hne (Prod.mk.inj (Except.ok.inj hu)).1.symm
  | itype hop hv => exact hplain hop nofun (by decide)
  | rtype hop hv => exact hplain hop nofun (by decide)

/-- Breaking out of the `switch`, an arm has written `rd` or no register,
and has written none where there is no destination. -/
theorem Retired.rf_cases {s t : Mcu L} {w : U32} (h : Retired s w t) :
    t.rf = s.rf
      ∨ (¬ NoDestination w ∧ ¬ s.LoadFails w)
        ∧ ∃ v, t.rf = s.rf.write v (rd w) := by
  cases h with
  | writeback hv => exact .inr ⟨hv.destination, _, rfl⟩
  | branch hop => exact .inl rfl
  | store hop hw => exact .inl rfl
  | system hop ht =>
      rcases executePriv_rf_cases ht with hrf | ⟨hf, v, hrf⟩
      · exact .inl hrf
      · refine .inr ⟨⟨?_, fun hfail => ?_⟩, v, hrf⟩
        · rintro (h | h | h | h)
          · exact absurd (hop.symm.trans h) nofun
          · exact absurd (hop.symm.trans h) nofun
          · exact hf h.2
          · exact absurd (hop.symm.trans h) nofun
        · exact absurd (hop.symm.trans hfail.1) nofun

/-- One call: the registers are kept, or the word fetched has a
destination and that register alone is written. -/
theorem executeInstruction_rf_cases {s t : Mcu L} {code : U32}
    (h : s.executeInstruction = .ok (code, t)) :
    t.rf = s.rf
      ∨ ∃ w, s.Fetches w ∧ (¬ NoDestination w ∧ ¬ s.LoadFails w)
        ∧ ∃ v, t.rf = s.rf.write v (rd w) := by
  rcases executeInstruction_cases h with
    ⟨rfl, -, -⟩ | ⟨w, u, hw, hu, ⟨-, -, rfl⟩ | ⟨-, -, rfl⟩⟩
  · exact .inl rfl
  · exact hu.rf_cases.imp_right fun hrf => ⟨w, hw, hrf⟩
  · exact hu.rf_cases.imp_right fun hrf => ⟨w, hw, hrf⟩

-- ============================================================== the result

/-- Register 0 reads 0 in every state of every run; and an instruction
changes no register but its `rd`, and none when it names no destination,
when its load fails, or when it cannot be fetched. -/
theorem registers_framed (L : Layout) :
    (∀ (entryPc : U32) (firmware : (L.device .rom).Mem) (n : Nat)
        (s : Mcu L),
      steps nextInstruction n (boot L entryPc firmware) = .ok s →
      s.rf.read 0#5 = 0#32)
    ∧ ∀ (s t : Mcu L) (code : U32), s.executeInstruction = .ok (code, t) →
      (∀ w r, s.Fetches w → r ≠ rd w → t.rf.read r = s.rf.read r)
      ∧ ((∀ w, ¬ s.Fetches w) → t.rf = s.rf)
      ∧ ∀ w, s.Fetches w → NoDestination w ∨ s.LoadFails w →
        t.rf = s.rf := by
  refine ⟨fun _ _ _ s _ => s.rf.read_zero, fun s t code h => ?_⟩
  rcases executeInstruction_rf_cases h with hrf | ⟨w, hw, hdest, v, hrf⟩
  · exact ⟨fun _ r _ _ => by rw [hrf], fun _ => hrf, fun _ _ _ => hrf⟩
  · refine ⟨fun w' r hw' hr => ?_, fun hno => absurd hw (hno w),
      fun w' hw' hnone => ?_⟩
    · rw [hw'.unique hw] at hr
      rw [hrf, s.rf.read_write_of_ne hr]
    · rw [hw'.unique hw] at hnone
      exact absurd hnone (not_or.2 hdest)

/-- ADDI into `x1`, and a load from address 0, where no device is: after
both `x0` is still 0; ADDI changes `x1` alone, and the load no register. -/
theorem addi_load_framed :
    (∃ s : Mcu .linker,
      steps nextInstruction 2 (program [0x00500093, 0x00012183]) = .ok s
        ∧ s.rf.read 0#5 = 0#32)
    ∧ (∃ t : Mcu .linker,
      (program [0x00500093]).executeInstruction = .ok (STATUS_OK, t)
        ∧ t.rf.read 1#5 = 5
        ∧ ∀ r, r ≠ 1#5 → t.rf.read r = (program [0x00500093]).rf.read r)
    ∧ ∃ t : Mcu .linker,
      (program [0x00012183]).executeInstruction = .ok (LOAD_ACCESS_FAULT, t)
        ∧ t.rf = (program [0x00012183]).rf := by
  obtain ⟨hzero, hframe⟩ := registers_framed .linker
  refine ⟨?_, ?_, ?_⟩
  · have hrun : (steps nextInstruction 2
        (program [0x00500093, 0x00012183])).map (fun _ => ()) = .ok () := by
      decide +kernel
    obtain ⟨s, hs, -⟩ := map_eq_ok.1 hrun
    exact ⟨s, hs, hzero _ _ 2 s hs⟩
  · have hexec : ((program [0x00500093]).executeInstruction).map
        (fun r => (r.1, r.2.rf.read 1#5)) = .ok (STATUS_OK, 5) := by
      decide +kernel
    obtain ⟨⟨code, t⟩, ht, hres⟩ := map_eq_ok.1 hexec
    obtain ⟨rfl, hx1⟩ := Prod.mk.inj hres
    have hfetch : (program [0x00500093]).Fetches 0x00500093 := by
      unfold Fetches
      decide +kernel
    exact ⟨t, ht, hx1, fun r hr => (hframe _ t _ ht).1 _ r hfetch hr⟩
  · have hexec : ((program [0x00012183]).executeInstruction).map (·.1)
        = .ok LOAD_ACCESS_FAULT := by decide +kernel
    obtain ⟨⟨code, t⟩, ht, rfl⟩ := map_eq_ok.1 hexec
    have hfetch : (program [0x00012183]).Fetches 0x00012183 := by
      unfold Fetches
      decide +kernel
    have hfails : (program [0x00012183]).LoadFails 0x00012183 :=
      ⟨by decide, LOAD_ACCESS_FAULT, none, by decide +kernel, by decide⟩
    exact ⟨t, ht, (hframe _ t _ ht).2.2 _ hfetch (.inr hfails)⟩

end Mcu

end T89Emu
