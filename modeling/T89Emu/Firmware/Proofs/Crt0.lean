/-
From reset to `load_ram`.

Before `load_ram` no interrupt is enabled, so each instruction of
`_start` is one cycle, and `Sets` says what a few of them do to the guest:
one register, and the program counter. `la` and `call` do it for every
address (`la_sets`, `call_sets`), wherever the linker has put the code
and what it names. Together they leave the handlers in force, which is
what a trap from then on relies on (`start_installs`).
-/
import T89Emu.Firmware.Crt0
import T89Emu.Firmware.Proofs.Interrupt
import T89Emu.Isa.Proofs.Simulation

namespace T89Emu

open Bytes Cpp Run Rv32

variable {L : Layout}

namespace Mcu

-- ================================================ statement vocabulary

/-- The words lie in ROM or RAM from the address on. -/
def CodeAt (s : Mcu L) (a : U32) (words : List U32) : Prop :=
  ∀ i w, words[i]? = some w → s.WordAt (a + BitVec.ofNat 32 (4 * i)) w

/-- A run of `n` cycles that sets a register and goes somewhere. -/
structure Sets (s t : Mcu L) (n : Nat) (r : BitVec 5) (v target : U32) :
    Prop where
  run : steps nextInstruction n s = .ok t
  pc : t.pc = target
  synced : t.nextPc = t.pc
  self : t.rf.read r = v
  rf : ∀ r', r' ≠ r → t.rf.read r' = s.rf.read r'
  mem : ∀ k, k ≠ .clint → t.mem k = s.mem k
  csr : ∀ a, a ≠ CSR_MIP → t.csr.readCsr a = s.csr.readCsr a

-- ============================================================== the code

variable {s t u : Mcu L} {r : BitVec 5} {v v' a b : U32} {n m : Nat}

/-- Code stays where it is while the devices but the CLINT do. -/
theorem CodeAt.of_mem {words : List U32} (h : s.CodeAt a words)
    (hmem : ∀ k, k ≠ .clint → t.mem k = s.mem k) : t.CodeAt a words :=
  fun i w hi => (h i w hi).of_mem hmem

/-- The first word of the code is where the code is. -/
theorem CodeAt.head {w : U32} {words : List U32}
    (h : s.CodeAt a (w :: words)) : s.WordAt a w := by
  have hfirst := h 0 w rfl
  rwa [Nat.mul_zero, BitVec.add_zero] at hfirst

/-- The code behind it is four bytes further on. -/
theorem CodeAt.tail {w : U32} {words : List U32}
    (h : s.CodeAt a (w :: words)) : s.CodeAt (a + 4) words := by
  intro i v hi
  have hnext := h (i + 1) v hi
  rwa [Nat.mul_succ, Nat.add_comm, BitVec.ofNat_add,
    ← BitVec.add_assoc] at hnext

/-- Of code in two parts, the first one is in the same place. -/
theorem CodeAt.left {words rest : List U32}
    (h : s.CodeAt a (words ++ rest)) : s.CodeAt a words := by
  intro i w hi
  refine h i w ?_
  rw [List.getElem?_append_left (List.getElem?_eq_some_iff.1 hi).1]
  exact hi

/-- The second one is behind it. -/
theorem CodeAt.right {words rest : List U32}
    (h : s.CodeAt a (words ++ rest)) :
    s.CodeAt (a + BitVec.ofNat 32 (4 * words.length)) rest := by
  intro i w hi
  have hword := h (words.length + i) w (by
    rw [List.getElem?_append_right (Nat.le_add_right ..),
      Nat.add_sub_cancel_left]
    exact hi)
  rwa [Nat.mul_add, BitVec.ofNat_add, ← BitVec.add_assoc] at hword

-- =============================================================== a cycle

/-- A cycle with interrupts off is the operation that the word names. -/
theorem next_of_run {w : U32} {op : Operation} (hword : s.WordAt s.pc w)
    (hdecodes : Decodes w s.pc op) (hsync : s.nextPc = s.pc)
    (hoff : s.csr.getMie = 0)
    (hrun : op.run s.nextCycle = .ok (STATUS_OK, t)) :
    s.nextInstruction = .ok t := by
  obtain ⟨-, hpc, hnextPc, hmem, -⟩ := s.nextCycle_frame
  have hw : s.nextCycle.Fetches w := by
    unfold Fetches
    rw [hpc]
    exact hword.busRead hmem
  have hdecodes' : Decodes w s.nextCycle.pc op := by rwa [hpc]
  have hexec := run_of_decodes hw
    (hnextPc.trans (hsync.trans hpc.symm)) hdecodes'
  rw [hrun] at hexec
  unfold nextInstruction
  rw [serviceInterrupts_of_not_due (not_due_of_getMie hoff)]
  exact attempt_of_ok hexec

/-- An instruction that writes a register and goes to an aligned
address. -/
theorem sets_of_run {i : Rv32.Instruction} (hr : r ≠ 0#5)
    (hword : s.WordAt s.pc i.encode) (hsync : s.nextPc = s.pc)
    (hoff : s.csr.getMie = 0) (hal : a.toNat % 4 = 0)
    (hrun : (operationAt s.pc i).run s.nextCycle
      = .ok (Operation.goTo (s.nextCycle.writeReg v r) a)) :
    ∃ t, Sets s t 1 r v a := by
  have hgo : Operation.goTo (s.nextCycle.writeReg v r) a
      = (STATUS_OK, { s.nextCycle.writeReg v r with
          nextPc := a, pc := a }) := if_neg (not_not.2 hal)
  rw [hgo] at hrun
  obtain ⟨-, -, -, hmem, hcsr⟩ := s.nextCycle_frame
  have hnext := next_of_run hword (decodes_encode s.pc i) hsync hoff hrun
  exact ⟨_, steps_succ_eq_ok.2 ⟨s, rfl, hnext⟩, rfl, rfl,
    s.rf.read_write_self hr v, fun _ hr' => s.rf.read_write_of_ne hr' v,
    hmem, hcsr⟩

-- ========================================================= a few of them

/-- The run has left the interrupts as they were. -/
theorem Sets.off (h : Sets s t n r v a) : t.csr.getMie = s.csr.getMie := by
  unfold Csr.getMie Csr.getBit
  rw [h.csr _ (by decide)]

/-- Two runs that set the same register, one after the other. -/
theorem Sets.trans (h : Sets s t n r v a) (h' : Sets t u m r v' b) :
    Sets s u (n + m) r v' b where
  run := steps_add h.run h'.run
  pc := h'.pc
  synced := h'.synced
  self := h'.self
  rf r' hr' := (h'.rf r' hr').trans (h.rf r' hr')
  mem k hk := (h'.mem k hk).trans (h.mem k hk)
  csr c hc := (h'.csr c hc).trans (h.csr c hc)

/-- The word after is aligned as well. -/
theorem WordAt.next_aligned {w : U32} (h : s.WordAt a w) :
    (a + 4).toNat % 4 = 0 := by
  obtain ⟨_, -, -, hal, -⟩ := h
  rw [BitVec.toNat_add]
  show (a.toNat + 4) % 2 ^ 32 % 4 = 0
  omega

/-- The code behind it is still there. -/
theorem Sets.codeAt (h : Sets s t n r v a) {words : List U32}
    (hcode : s.CodeAt a words) : t.CodeAt t.pc words :=
  h.pc.symm ▸ hcode.of_mem h.mem

/-- The first half of `la` and `call`. -/
theorem auipc_sets {d : U32} {code : List U32} (hr : r ≠ 0#5)
    (hcode : s.CodeAt s.pc
      ((Rv32.Instruction.auipc r (Rv32.high d)).encode :: code))
    (hsync : s.nextPc = s.pc) (hoff : s.csr.getMie = 0) :
    ∃ t, Sets s t 1 r (s.pc + Rv32.upper (Rv32.high d)) (s.pc + 4) := by
  refine sets_of_run hr hcode.head hsync hoff hcode.head.next_aligned ?_
  unfold operationAt Operation.run
  dsimp only
  rw [upper_restored]
  rfl

/-- An addition to the register itself. -/
theorem addi_sets {imm : BitVec 12} {code : List U32} (hr : r ≠ 0#5)
    (hcode : s.CodeAt s.pc
      ((Rv32.Instruction.immediate .addi r r imm).encode :: code))
    (hsync : s.nextPc = s.pc) (hoff : s.csr.getMie = 0) :
    ∃ t, Sets s t 1 r (s.rf.read r + imm.signExtend 32) (s.pc + 4) :=
  sets_of_run hr hcode.head hsync hoff hcode.head.next_aligned rfl

/-- The second half completes the distance. -/
theorem pc_add_high_add_low (pc target : U32) :
    pc + Rv32.upper (Rv32.high (target - pc))
        + (Rv32.low (target - pc)).signExtend 32 = target := by
  rw [BitVec.add_assoc, Rv32.high_add_low, BitVec.add_comm,
    BitVec.sub_add_cancel]

/-- `la`, wherever the symbol is. -/
theorem la_sets {pc target : U32} {code : List U32} (hr : r ≠ 0#5)
    (hpc : s.pc = pc) (hcode : s.CodeAt s.pc
      ((Rv32.la r pc target).map Rv32.Instruction.encode ++ code))
    (hsync : s.nextPc = s.pc) (hoff : s.csr.getMie = 0) :
    ∃ t, Sets s t 2 r target (pc + 8) ∧ t.CodeAt t.pc code := by
  obtain rfl := hpc
  obtain ⟨t, ht⟩ := auipc_sets hr hcode hsync hoff
  have hcode' := ht.codeAt hcode.tail
  obtain ⟨u, hu⟩ := addi_sets hr hcode' ht.synced (ht.off.trans hoff)
  have hboth := ht.trans hu
  rw [ht.self, pc_add_high_add_low, ht.pc, BitVec.add_assoc] at hboth
  exact ⟨u, hboth, hu.codeAt hcode'.tail⟩

/-- A `call` of two instructions. -/
theorem far_call_sets {code : List U32} {target : U32}
    (hcode : s.CodeAt s.pc
      (([.auipc 1 (Rv32.high (target - s.pc)),
        .jalr 1 1 (Rv32.low (target - s.pc))] :
          List Rv32.Instruction).map Rv32.Instruction.encode ++ code))
    (hsync : s.nextPc = s.pc) (hoff : s.csr.getMie = 0)
    (hal : target.toNat % 4 = 0) :
    ∃ t, Sets s t 2 1 (s.pc + 8) target := by
  obtain ⟨t, ht⟩ := auipc_sets (r := 1) (by decide) hcode hsync hoff
  have hcode' := ht.codeAt hcode.tail
  have htarget : t.rf.read 1
      + (Rv32.low (target - s.pc)).signExtend 32 = target := by
    rw [ht.self, pc_add_high_add_low]
  have hjalr : (operationAt t.pc (.jalr 1 1 (Rv32.low (target - s.pc)))).run
      t.nextCycle
        = .ok (Operation.goTo (t.nextCycle.writeReg (t.pc + 4) 1)
          (t.rf.read 1 + (Rv32.low (target - s.pc)).signExtend 32)) := rfl
  rw [htarget] at hjalr
  obtain ⟨u, hu⟩ := sets_of_run (by decide) hcode'.head ht.synced
    (ht.off.trans hoff) hal hjalr
  have hboth := ht.trans hu
  rw [ht.pc, BitVec.add_assoc] at hboth
  exact ⟨u, hboth⟩

/-- And one that is a JAL. -/
theorem near_call_sets {code : List U32} {target : U32}
    (hreach : Rv32.Reaches (target - s.pc))
    (hcode : s.CodeAt s.pc ((Rv32.Instruction.jal 1
      ((target - s.pc).extractLsb' 1 20)).encode :: code))
    (hsync : s.nextPc = s.pc) (hoff : s.csr.getMie = 0)
    (hal : target.toNat % 4 = 0) :
    ∃ t, Sets s t 1 1 (s.pc + 4) target := by
  have hjal : (operationAt s.pc (.jal 1
      ((target - s.pc).extractLsb' 1 20))).run s.nextCycle
        = .ok (Operation.goTo (s.nextCycle.writeReg (s.pc + 4) 1)
          (Rv32.halfwords ((target - s.pc).extractLsb' 1 20) + s.pc)) := rfl
  rw [hreach, BitVec.sub_add_cancel] at hjal
  exact sets_of_run (by decide) hcode.head hsync hoff hal hjal

/-- `call`, as the linker leaves it: the link register gets the address
behind it. -/
theorem call_sets {relax : Bool} {pc target : U32} {code : List U32}
    (hpc : s.pc = pc)
    (hcode : s.CodeAt s.pc
      ((Rv32.call relax pc target).map Rv32.Instruction.encode ++ code))
    (hsync : s.nextPc = s.pc) (hoff : s.csr.getMie = 0)
    (hal : target.toNat % 4 = 0) :
    ∃ t, Sets s t (Rv32.call relax pc target).length 1
      (Rv32.afterCall relax pc target) target := by
  obtain rfl := hpc
  unfold Rv32.afterCall
  unfold Rv32.call at hcode ⊢
  split at hcode
  · next h =>
    rw [if_pos h]
    exact near_call_sets h.2 hcode hsync hoff hal
  · next h =>
    rw [if_neg h]
    exact far_call_sets hcode hsync hoff hal

/-- `csrw mtvec, a0` -/
theorem csrwMtvec_next (hword : s.WordAt s.pc Firmware.csrwMtvec)
    (hsync : s.nextPc = s.pc) (hoff : s.csr.getMie = 0) :
    ∃ t, s.nextInstruction = .ok t ∧ t.pc = s.pc + 4
      ∧ t.nextPc = t.pc ∧ t.rf = s.rf
      ∧ (∀ k, k ≠ .clint → t.mem k = s.mem k)
      ∧ t.csr.getMtvec = s.rf.read 10
      ∧ ∀ c, c ≠ CSR_MTVEC → c ≠ CSR_MIP →
        t.csr.readCsr c = s.csr.readCsr c := by
  have hdecodes : Decodes Firmware.csrwMtvec s.pc
      (.csr .csrrw 0#5 CSR_MTVEC 10#5) :=
    .csr (w := Firmware.csrwMtvec) (m := .csrrw) rfl (by decide)
      fun _ _ => executePriv_csrrw rfl
  obtain ⟨-, -, -, hmem, hcsr⟩ := s.nextCycle_frame
  have hgo : Operation.goTo (CsrOp.csrrw.update s.nextCycle 0#5 CSR_MTVEC
      10#5) (s.pc + 4) = (STATUS_OK,
        { CsrOp.csrrw.update s.nextCycle 0#5 CSR_MTVEC 10#5 with
          nextPc := s.pc + 4, pc := s.pc + 4 }) :=
    if_neg (not_not.2 hword.next_aligned)
  have hnext := next_of_run hword hdecodes hsync hoff
    (congrArg Except.ok hgo)
  refine ⟨_, hnext, rfl, rfl, s.rf.write_zero _, hmem, ?_,
    fun c hc hmip => ?_⟩
  · exact (Csr.readCsr_writeCsr_self ..).trans
      (congrArg (·.read 10#5) (s.rf.write_zero _))
  · exact (Csr.readCsr_writeCsr_of_ne _ _ hc).trans (hcsr c hmip)

end Mcu

namespace Firmware

-- ================================================================== _start

/-- From reset the guest is in `load_ram` after nine cycles, or after ten
when the call of it is not relaxed: it returns to the call of
`kernel_main`, it has the stack and the global pointer, and a trap from
now on enters the table of interrupt.s. Nothing else has changed but for
the CLINT. -/
theorem start_installs (L : Layout) (s : Mcu L) (sym : StartSymbols)
    (relax : Bool) (hcode : s.CodeAt s.pc (startCode sym relax s.pc))
    (hinst : Installed s sym.vectorTable) (hsync : s.nextPc = s.pc)
    (hoff : s.csr.getMie = 0) (hal : sym.loadRam.toNat % 4 = 0) :
    ∃ t, steps Mcu.nextInstruction
          (8 + (call relax (s.pc + 32) sym.loadRam).length) s = .ok t
      ∧ t.pc = sym.loadRam ∧ t.nextPc = t.pc
      ∧ t.rf.read 1 = afterCall relax (s.pc + 32) sym.loadRam
      ∧ t.rf.read 2 = sym.stackTop - 4
      ∧ t.rf.read 3 = sym.globalPointer ∧ t.rf.read 10 = sym.vectorTable
      ∧ (∀ r, r ≠ 1 → r ≠ 2 → r ≠ 3 → r ≠ 10 →
        t.rf.read r = s.rf.read r)
      ∧ (∀ k, k ≠ .clint → t.mem k = s.mem k)
      ∧ t.csr.getMtvec = sym.vectorTable ∧ Installed t t.csr.getMtvec
      ∧ ∀ c, c ≠ CSR_MTVEC → c ≠ CSR_MIP →
        t.csr.readCsr c = s.csr.readCsr c := by
  -- the stack
  obtain ⟨s1, h1, hcode1⟩ := Mcu.la_sets (r := 2) (by decide) rfl hcode
    hsync hoff
  have hoff1 := h1.off.trans hoff
  obtain ⟨s2, h2⟩ := Mcu.addi_sets (by decide) hcode1 h1.synced hoff1
  have hminus : (-4 : BitVec 12).signExtend 32 = -(4 : BitVec 32) := by decide
  have hstack := h1.trans h2
  rw [h1.self, h1.pc, BitVec.add_assoc, hminus,
    ← BitVec.sub_eq_add_neg] at hstack
  have hoff2 := hstack.off.trans hoff
  -- the global pointer and the table
  obtain ⟨s3, h3, hcode3⟩ := Mcu.la_sets (r := 3) (by decide) hstack.pc
    (h2.codeAt hcode1.tail) hstack.synced hoff2
  have hpc3 : s3.pc = s.pc + 20 := h3.pc.trans (BitVec.add_assoc ..)
  have hoff3 := h3.off.trans hoff2
  obtain ⟨s4, h4, hcode4⟩ := Mcu.la_sets (r := 10) (by decide) hpc3 hcode3
    h3.synced hoff3
  have hoff4 := h4.off.trans hoff3
  -- it is installed
  obtain ⟨s5, hnext5, hpc5, hsync5, hrf5, hmem5, htable, hcsr5⟩ :=
    Mcu.csrwMtvec_next hcode4.head h4.synced hoff4
  have hpc : s5.pc = s.pc + 32 := by
    rw [hpc5, h4.pc, BitVec.add_assoc, BitVec.add_assoc]
    rfl
  have hcode5 : s5.CodeAt s5.pc
      ((call relax (s.pc + 32) sym.loadRam).map Instruction.encode
        ++ ((call relax (afterCall relax (s.pc + 32) sym.loadRam)
          sym.kernelMain).map Instruction.encode
            ++ [(Source.jump 1 0).encode])) := by
    have hrest := hcode4.tail.of_mem hmem5
    rw [← hpc5] at hrest
    simpa using hrest
  have hoff5 : s5.csr.getMie = 0 := by
    unfold Csr.getMie Csr.getBit at hoff4 ⊢
    rw [hcsr5 _ (by decide) (by decide), hoff4]
  obtain ⟨t, h6⟩ := Mcu.call_sets hpc hcode5 hsync5 hoff5 hal
  have hrun5 : steps Mcu.nextInstruction 1 s4 = .ok s5 :=
    steps_succ_eq_ok.2 ⟨s4, rfl, hnext5⟩
  have hrun := steps_add hstack.run (steps_add h3.run (steps_add h4.run
    (steps_add hrun5 h6.run)))
  rw [show ∀ n, 2 + 1 + (2 + (2 + (1 + n))) = 8 + n by omega] at hrun
  have hmem : ∀ k, k ≠ .clint → t.mem k = s.mem k := fun k hk => by
    rw [h6.mem k hk, hmem5 k hk, h4.mem k hk, h3.mem k hk,
      hstack.mem k hk]
  have hmtvec : t.csr.getMtvec = sym.vectorTable := by
    unfold Csr.getMtvec at htable ⊢
    rw [h6.csr _ (by decide), htable, h4.self]
  refine ⟨t, hrun, h6.pc, h6.synced, ?_, ?_, ?_, ?_, fun r r1 r2 r3 r10 => ?_,
    hmem, hmtvec, ?_, fun c hc hmip => ?_⟩
  · exact h6.self
  · rw [h6.rf _ (by decide), hrf5, h4.rf _ (by decide),
      h3.rf _ (by decide), hstack.self]
  · rw [h6.rf _ (by decide), hrf5, h4.rf _ (by decide), h3.self]
  · rw [h6.rf _ (by decide), hrf5, h4.self]
  · rw [h6.rf _ r1, hrf5, h4.rf _ r10, h3.rf _ r3, hstack.rf _ r2]
  · rw [hmtvec]
    exact hinst.of_mem hmem
  · rw [h6.csr _ hmip, hcsr5 _ hc hmip, h4.csr _ hmip, h3.csr _ hmip,
      hstack.csr _ hmip]

/-- Where a linker could put the symbols. -/
def linked : StartSymbols where
  stackTop := 0x40100000
  globalPointer := 0x40000800
  vectorTable := 0x8000002c
  loadRam := 0x80001000
  kernelMain := 0x80002000

/-- crt0.s at the start of ROM, its calls relaxed, and interrupt.s behind
it. -/
def started : List U32 :=
  startCode linked true 0x80000000 ++ interruptSource.words

/-- The code of the example is where the guest starts. -/
theorem started_codeAt :
    (Mcu.program started).CodeAt 0x80000000 started := by
  intro i w hi
  have hlt : i < 52 := (List.getElem?_eq_some_iff.1 hi).1
  have hsize : 4 * 52 ≤ ROM_SIZE.toNat := by decide
  exact Mcu.program_wordAt hi (by omega)

/-- A program of `_start` and the table, its call relaxed: nine cycles
after reset the guest is in `load_ram`. -/
theorem reset_start_installs :
    ∃ t, steps Mcu.nextInstruction 9 (Mcu.program started) = .ok t
      ∧ t.pc = 0x80001000 ∧ t.rf.read 1 = 0x80000024
      ∧ t.csr.getMtvec = 0x8000002c := by
  obtain ⟨t, hrun, hpc, -, hlink, -, -, -, -, -, hmtvec, -⟩ :=
    start_installs .linker (Mcu.program started) linked true
      started_codeAt.left started_codeAt.right rfl rfl (by decide)
  exact ⟨t, hrun, hpc, hlink, hmtvec⟩

end Firmware

end T89Emu
