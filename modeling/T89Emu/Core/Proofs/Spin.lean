/-
A jump to itself.

A core that stands at a JAL with offset 0, where no interrupt can be
taken, stands there for good: each cycle links, counts and comes back
(`Parked.next`), so the run has no end and no error, and the registers
but the link, the memory but the counter, and the CSRs but `mip` are in
every state what they were in the first one (`Parked.runs`).
-/
import T89Emu.Core.Proofs.Transparent
import T89Emu.Core.Proofs.Jump

namespace T89Emu

open Bytes Cpp Run

variable {L : Layout}

namespace Mcu

-- ================================================ statement vocabulary

/-- The core stands at the word, a JAL to itself, with interrupts off. -/
structure Parked (s : Mcu L) (w : U32) : Prop where
  word : s.WordAt s.pc w
  jal : Rv32.opcode w = Rv32.JAL
  toSelf : Rv32.jImmediate w = 0#32
  synced : s.nextPc = s.pc
  off : s.csr.getMie = 0

/-- What changes while it does: the link register, the counter and
`mip`. -/
structure Rests (link : BitVec 5) (s t : Mcu L) : Prop where
  pc : t.pc = s.pc
  rf : ∀ r, r ≠ link → t.rf.read r = s.rf.read r
  mem : ∀ k, k ≠ .clint → t.mem k = s.mem k
  clint : ∀ i : Fin CLINT_SIZE.toNat, 8 ≤ i.val →
    t.mem .clint i = s.mem .clint i
  csr : ∀ a, a ≠ CSR_MIP → t.csr.readCsr a = s.csr.readCsr a

-- ============================================================ one cycle

variable {s t u : Mcu L} {w : U32} {link : BitVec 5}

theorem Rests.refl (s : Mcu L) : Rests link s s :=
  ⟨rfl, fun _ _ => rfl, fun _ _ => rfl, fun _ _ => rfl, fun _ _ => rfl⟩

theorem Rests.trans (h : Rests link s t) (h' : Rests link t u) :
    Rests link s u where
  pc := h'.pc.trans h.pc
  rf r hr := (h'.rf r hr).trans (h.rf r hr)
  mem k hk := (h'.mem k hk).trans (h.mem k hk)
  clint i hi := (h'.clint i hi).trans (h.clint i hi)
  csr a ha := (h'.csr a ha).trans (h.csr a ha)

/-- A word in ROM or RAM stays where the two do. -/
theorem WordAt.of_mem {addr : U32} (h : s.WordAt addr w)
    (hmem : ∀ k, k ≠ .clint → t.mem k = s.mem k) : t.WordAt addr w := by
  obtain ⟨k, hk, hsel, hal, hin, hword⟩ := h
  have hclint : k ≠ .clint := by
    rcases hk with rfl | rfl
    · decide
    · decide
  exact ⟨k, hk, hsel, hal, hin, by rw [hmem k hclint, hword]⟩

/-- The jump comes back to itself. -/
theorem Parked.executes (h : s.Parked w) :
    s.serviceInterrupts.pc = s.pc ∧ s.serviceInterrupts.Fetches w
      ∧ ∃ t, s.serviceInterrupts.executeInstruction = .ok (STATUS_OK, t)
        ∧ t.Parked w ∧ Rests (rd w) s t := by
  rw [serviceInterrupts_of_not_due (not_due_of_getMie h.off)]
  obtain ⟨hrf, hpc, hnextPc, hmem, hcsr⟩ := s.nextCycle_frame
  have hw : s.nextCycle.Fetches w := by
    unfold Fetches
    rw [hpc]
    exact h.word.busRead hmem
  have hsum : s.nextCycle.jumpSum w = s.pc := by
    unfold jumpSum Rv32.jumpSum
    rw [if_pos h.jal, h.toSelf, hpc, BitVec.add_zero]
  have hal : s.pc.toNat % 4 = 0 := hpc ▸ hw.aligned
  have hexec := executeInstruction_links hw (.inl h.jal)
    (hnextPc.trans (h.synced.trans hpc.symm))
  rw [hsum, if_neg (not_not.2 hal)] at hexec
  refine ⟨hpc, hw, _, hexec, ⟨h.word.of_mem hmem, h.jal, h.toSelf, rfl,
    (s.getBit_nextCycle _ (by decide)).trans h.off⟩, ?_⟩
  exact ⟨rfl, fun r hr => s.rf.read_write_of_ne hr _, hmem,
    fun i hi => s.clint_above_nextCycle hi, hcsr⟩

/-- And that is a cycle. -/
theorem Parked.next (h : s.Parked w) :
    ∃ t, s.nextInstruction = .ok t ∧ t.Parked w ∧ Rests (rd w) s t := by
  obtain ⟨-, -, t, hexec, ht⟩ := h.executes
  exact ⟨t, attempt_of_ok hexec, ht⟩

/-- Nothing else is executed. -/
theorem Parked.attempts (h : s.Parked w) {u : Mcu L}
    (hu : Attempts s u) : u.pc = s.pc ∧ u.Fetches w := by
  obtain ⟨hpc, hw, t, hexec, -⟩ := h.executes
  cases hu with
  | first => exact ⟨hpc, hw⟩
  | handler hexec' hne =>
      rw [hexec] at hexec'
      exact absurd (Prod.mk.inj (Except.ok.inj hexec')).1.symm hne

-- ============================================================== the run

/-- Any number of cycles comes back to it. -/
theorem Parked.runs (h : s.Parked w) (n : Nat) :
    ∃ t, steps nextInstruction n s = .ok t ∧ t.Parked w
      ∧ Rests (rd w) s t := by
  induction n with
  | zero => exact ⟨s, rfl, h, .refl s⟩
  | succ n ih =>
      obtain ⟨t, hrun, hparked, hrests⟩ := ih
      obtain ⟨u, hnext, hparked', hrests'⟩ := hparked.next
      exact ⟨u, steps_succ_eq_ok.2 ⟨t, hrun, hnext⟩, hparked',
        hrests.trans hrests'⟩

end Mcu

end T89Emu
