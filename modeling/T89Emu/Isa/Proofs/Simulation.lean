/-
The emulator against the instruction set, whole runs at a time.

`Simulates s m` relates a state of the emulator to one of the machine of
`Lib/Rv32/Machine.lean`: the same pc and registers, and at every address
of ROM, RAM and video memory the byte that the device stores there. The
CLINT is left out, since its counter moves on its own.

# Where the emulator follows

`Served` says on the machine alone where the emulator does what the
instruction set asks: words are fetched and data is accessed aligned and
inside a device, targets are 4-aligned, the difference of two operands
that are compared signed fits, register shifts have counts below 32, and
above a byte or halfword that is loaded the memory already holds its
extension. A step that is served is followed by one call of
`nextInstruction` (`nextInstruction_simulates`), so a run of the machine
whose steps are served is followed call by call, with interrupts
disabled throughout (`runs_simulated`). FENCE, ECALL and EBREAK are not
instructions of the machine.
-/
import T89Emu.Core.Proofs.Bounds
import T89Emu.Core.Proofs.Interrupt
import T89Emu.Core.Proofs.Jump
import T89Emu.Core.Proofs.Load
import T89Emu.Isa.Proofs.Encoding
import T89Emu.Memory.Proofs.Routing

namespace T89Emu

open Bytes Cpp Run

variable {L : Layout}

namespace Mcu

-- ================================================ statement vocabulary

/-- The bus asks the device for the address, which is not the CLINT, and
`n` bytes from there on lie in it. -/
structure Inside (L : Layout) (a : U32) (n : Nat) (k : DeviceClass) :
    Prop where
  select : bus.select L.device a = some k
  notClint : k ≠ .clint
  fits : (L.device k).getAddress a + n ≤ (L.device k).deviceSize.toNat

/-- The state of the emulator is that of the machine. -/
structure Simulates (s : Mcu L) (m : Rv32.Machine) : Prop where
  pc : s.pc = m.pc
  nextPc : s.nextPc = m.pc
  regs : ∀ r, s.rf.read r = m.x r
  mem : ∀ k, k ≠ .clint → ∀ i : Fin (L.device k).deviceSize.toNat,
    s.mem k i = m.mem ((L.device k).baseAddress + BitVec.ofNat 32 i)

/-- What an instruction needs of the machine it meets, its operands
considered, for the emulator to follow. -/
def Agrees (L : Layout) (m : Rv32.Machine) : Rv32.Instruction → Prop
  | .jal _ offset => (m.pc + Rv32.halfwords offset).toNat % 4 = 0
  | .jalr _ r1 offset => (m.x r1 + offset.signExtend 32).toNat % 4 = 0
  | .branch c r1 r2 offset =>
      (c.IsSigned → DifferenceFits (m.x r1) (m.x r2))
        ∧ (c.holds (m.x r1) (m.x r2) = true →
          (m.pc + Rv32.halfwords offset).toNat % 4 = 0)
  | .load l _ r1 offset =>
      let a := m.x r1 + offset.signExtend 32
      a.toNat % l.size = 0 ∧ (∃ k, Inside L a 4 k)
        ∧ ∀ j, l.size ≤ j → j < 4 → m.mem (a + BitVec.ofNat 32 j)
          = BitVec.fill 8 (l.fill (m.load a l.size))
  | .store o _ r1 offset =>
      let a := m.x r1 + offset.signExtend 32
      a.toNat % o.size = 0 ∧ ∃ k, Inside L a o.size k ∧ k ≠ .rom
  | .immediate o _ r1 imm =>
      o = .slti → DifferenceFits (m.x r1) (imm.signExtend 32)
  | .register o _ r1 r2 =>
      (o = .slt → DifferenceFits (m.x r1) (m.x r2))
        ∧ (o.IsShift → (m.x r2).toNat < 32)
  | _ => True

/-- The emulator follows the instruction. -/
structure Served (L : Layout) (m : Rv32.Machine) (i : Rv32.Instruction) :
    Prop where
  aligned : m.pc.toNat % 4 = 0
  fetched : ∃ k, Inside L m.pc 4 k
  agrees : Agrees L m i

-- ============================================================ the memory

variable {s : Mcu L} {m : Rv32.Machine}

/-- The bytes behind an address, counted in the device. -/
theorem base_add_getAddress (d : MemoryDevice) (a : U32) (j : Nat) :
    d.baseAddress + BitVec.ofNat 32 (d.getAddress a + j)
      = a + BitVec.ofNat 32 j := by
  have hoff : BitVec.ofNat 32 (d.getAddress a) = a - d.baseAddress :=
    BitVec.ofNat_toNat .. |>.trans (BitVec.setWidth_eq _)
  rw [BitVec.ofNat_add, hoff, ← BitVec.add_assoc, BitVec.add_comm _ (a - _),
    BitVec.sub_add_cancel]

/-- What the device stores is what the machine finds. -/
theorem Simulates.peek (h : Simulates s m) {k : DeviceClass}
    (hk : k ≠ .clint) {a : U32} {n : Nat}
    (hfit : (L.device k).getAddress a + n
      ≤ (L.device k).deviceSize.toNat) :
    (s.mem k).peek ((L.device k).getAddress a) n hfit = m.load a n := by
  refine eq_of_byteOf_eq fun j hj => ?_
  rw [Buffer.byteOf_peek _ hfit hj, h.mem k hk, base_add_getAddress,
    m.byteOf_load a hj]

/-- The emulator fetches the word of the instruction. -/
theorem Simulates.fetches (h : Simulates s m) {i : Rv32.Instruction}
    (hi : m.Fetches i) (hal : m.pc.toNat % 4 = 0) {k : DeviceClass}
    (hin : Inside L m.pc 4 k) : s.Fetches i.encode := by
  have hcls : (L.device k).cls ≠ .clint := by
    rw [L.device_cls]
    exact hin.notClint
  have hwidth : (L.device k).readWidth 4 = 4 := if_neg hcls
  unfold Mcu.Fetches
  rw [h.pc, busRead_eq_ok_iff isAccessSize_word hal]
  refine ⟨k, hin.select, by rw [hwidth]; exact hin.fits, ?_⟩
  rw [h.peek hin.notClint]
  refine eq_of_byteOf_eq (w := 4) fun j hj => ?_
  rw [byteOf_setWidth (w := 4) _ hj, ← hi, m.byteOf_load _ hj,
    m.byteOf_load _ (by rw [hwidth]; exact hj)]

/-- The bus delivers what a load makes of the bytes it finds. -/
theorem Simulates.loads (h : Simulates s m) {l : Rv32.LoadOp}
    {d r1 : BitVec 5} {offset : BitVec 12}
    (hagrees : Agrees L m (.load l d r1 offset)) :
    let a := m.x r1 + offset.signExtend 32
    s.busRead a l.size
      = .ok (STATUS_OK, some (l.extend (m.load a l.size))) := by
  intro a
  obtain ⟨hal, ⟨k, hin⟩, hfill⟩ := hagrees
  have hsize : IsAccessSize l.size := by cases l <;> decide
  have hle := hsize.le_four
  have hcls : (L.device k).cls ≠ .clint := by
    rw [L.device_cls]
    exact hin.notClint
  have hwidth : (L.device k).readWidth l.size = 4 := if_neg hcls
  rw [busRead_eq_ok_iff hsize hal]
  refine ⟨k, hin.select, by rw [hwidth]; exact hin.fits, ?_⟩
  rw [h.peek hin.notClint]
  refine eq_of_byteOf_eq (w := 4) fun j hj => ?_
  rw [byteOf_setWidth (w := 4) _ hj,
    m.byteOf_load _ (by rw [hwidth]; exact hj), l.byteOf_extend _ hj]
  split
  · next hlow => rw [m.byteOf_load a hlow]
  · exact hfill j (by omega) hj

/-- Every device is on the bus. -/
theorem mem_bus (k : DeviceClass) : k ∈ bus := by
  cases k with
  | rom => decide
  | ram => decide
  | video => decide
  | clint => decide

/-- The bytes of an access lie in no other device. -/
theorem Inside.apart (hwf : bus.WellFormed L.device) {a : U32} {n : Nat}
    {k j : DeviceClass} (hin : Inside L a n k) (hjk : j ≠ k)
    (i : Fin (L.device j).deviceSize.toNat) :
    n ≤ ((L.device j).baseAddress + BitVec.ofNat 32 i - a).toNat := by
  by_contra hlt
  have hi := i.isLt
  have hfitj : (L.device j).limit ≤ 2 ^ 32 := hwf.fits j (mem_bus j)
  have hfitk : (L.device k).limit ≤ 2 ^ 32 := hwf.fits k (mem_bus k)
  have hfit := hin.fits
  unfold MemoryDevice.limit at hfitj hfitk
  unfold MemoryDevice.getAddress at hfit
  generalize hb : (L.device j).baseAddress + BitVec.ofNat 32 i = b at hlt
  have hbnat : b.toNat = (L.device j).baseAddress.toNat + i := by
    rw [← hb, BitVec.toNat_add, BitVec.toNat_ofNat]
    omega
  rw [BitVec.toNat_sub] at hfit hlt
  have ha := a.isLt
  -- the byte is one of both devices
  refine hjk (hwf.unique b j (mem_bus j) k (mem_bus k) ?_ ?_)
  · unfold MemoryDevice.Owns MemoryDevice.limit
    omega
  · unfold MemoryDevice.Owns MemoryDevice.limit
    omega

/-- An access of the bus stores what the machine stores. -/
theorem Simulates.stores (hwf : bus.WellFormed L.device)
    (h : Simulates s m) {a : U32} {n : Nat} {k : DeviceClass}
    (hsize : IsAccessSize n) (hal : a.toNat % n = 0)
    (hin : Inside L a n k) (hrom : k ≠ .rom) (v : U32) :
    ∃ mem, s.busWrite a v n = .ok (STATUS_OK, mem)
      ∧ mem .clint = s.mem .clint
      ∧ Simulates { s with mem := mem } (m.store a n v) := by
  have hcls : (L.device k).cls ≠ .rom := by
    rw [L.device_cls]
    exact hrom
  refine ⟨Function.update s.mem k ((s.mem k).poke
    ((L.device k).getAddress a) n (v.setWidth (8 * n))), ?_, ?_, ?_⟩
  · unfold busWrite
    rw [Bus.write_of_select hin.select,
      MemoryDevice.write_eq hcls hsize hal,
      MemoryDevice.storeAt_of_le hin.fits]
    rfl
  · exact Function.update_of_ne hin.notClint.symm ..
  · refine ⟨h.pc, h.nextPc, h.regs, fun j hj i => ?_⟩
    rw [Rv32.Machine.mem_store]
    by_cases hjk : j = k
    · subst hjk
      have hfit := hin.fits
      have hi := i.isLt
      have hlt := (L.device j).deviceSize.isLt
      -- the place of the byte in the access
      have hplace : ((L.device j).baseAddress + BitVec.ofNat 32 i - a).toNat
          = (2 ^ 32 - (L.device j).getAddress a + i) % 2 ^ 32 := by
        have hbase := (L.device j).baseAddress.isLt
        have ha := a.isLt
        unfold MemoryDevice.getAddress
        rw [BitVec.toNat_sub, BitVec.toNat_add, BitVec.toNat_sub,
          BitVec.toNat_ofNat]
        omega
      rw [hplace]
      show Function.update s.mem j _ j i = _
      rw [Function.update_self]
      by_cases hmem : (L.device j).getAddress a ≤ i
          ∧ i < (L.device j).getAddress a + n
      · rw [Buffer.poke_of_mem _ _ hmem, if_pos (by omega),
          byteOf_setWidth _ (by omega)]
        congr 1
        omega
      · rw [Buffer.poke_of_not_mem _ _ (by omega), if_neg (by omega)]
        exact h.mem j hj i
    · rw [if_neg (by have := hin.apart hwf hjk i; omega)]
      show Function.update s.mem k _ j i = _
      rw [Function.update_of_ne hjk]
      exact h.mem j hj i

-- ===================================================== registers and pc

/-- Both write a register alike. -/
theorem Simulates.setX (h : Simulates s m) (r : BitVec 5) (v : U32) :
    Simulates (s.writeReg v r) (m.setX r v) := by
  refine ⟨h.pc, h.nextPc, fun r' => ?_, h.mem⟩
  rw [m.x_setX]
  show (s.rf.write v r).read r' = _
  by_cases hr : r' = r
  · subst hr
    by_cases h0 : r' = 0#5
    · rw [h0, RegisterFile.read_zero, if_neg fun hne => hne.2 rfl,
        m.x_zero]
    · rw [s.rf.read_write_self h0, if_pos ⟨rfl, h0⟩]
  · rw [s.rf.read_write_of_ne hr, if_neg fun hand => hr hand.1]
    exact h.regs r'

/-- And go to an address. -/
theorem Simulates.goTo (h : Simulates s m) (a : U32) :
    Simulates { s with nextPc := a, pc := a } (m.goTo a) :=
  ⟨rfl, rfl, h.regs, h.mem⟩

-- ======================================================== the operations

/-- The ALU computes the operation of the instruction set. -/
theorem execute_eval {o : Rv32.RegOp} {A B : U32}
    (hslt : o = .slt → DifferenceFits A B)
    (hshift : o.IsShift → B.toNat < 32) :
    Alu.execute A B (registerOp o).aluOp = .ok (o.eval A B) := by
  have hcount : o.IsShift → B.toNat % 32 = B.toNat := fun h =>
    Nat.mod_eq_of_lt (hshift h)
  cases o with
  | add => rfl
  | sub => rfl
  | xor => rfl
  | or => rfl
  | and => rfl
  | slt =>
      have hsign := (msb_sub_iff A B).2 (hslt rfl)
      refine (execute_slt A B).trans ?_
      unfold Rv32.RegOp.eval
      simp only [hsign]
  | sltu => rfl
  | sll =>
      have hB := hshift (by decide)
      unfold Rv32.RegOp.eval
      rw [hcount (by decide)]
      exact if_pos hB
  | srl =>
      have hB := hshift (by decide)
      unfold Rv32.RegOp.eval
      rw [hcount (by decide)]
      exact if_pos hB
  | sra =>
      have hB := hshift (by decide)
      unfold Rv32.RegOp.eval
      rw [hcount (by decide)]
      unfold Alu.execute shiftBy registerOp RegisterOp.aluOp
      dsimp only
      rw [if_pos hB, ok_bind, arithmetic_shift]

/-- The next-pc unit decides a branch as the instruction set does. -/
theorem taken_holds {c : Rv32.Condition} {A B : U32}
    (hsigned : c.IsSigned → DifferenceFits A B) :
    (branchOp c).taken A B = c.holds A B := by
  cases c with
  | eq => rfl
  | ne => rfl
  | lt =>
      have hsign := (msb_sub_iff A B).2 (hsigned (by decide))
      exact Bool.eq_iff_iff.2 (hsign.trans decide_eq_true_iff.symm)
  | ge =>
      have hsign := (msb_sub_iff A B).2 (hsigned (by decide))
      refine Bool.eq_iff_iff.2 ?_
      show (!(A - B).msb) = true ↔ decide (B.toInt ≤ A.toInt) = true
      rw [Bool.not_eq_true', ← Bool.not_eq_true, hsign, decide_eq_true_iff]
      omega
  | ltu => rfl
  | geu => rfl

-- ============================================================ one step

/-- The upper immediate, put back in place. -/
theorem upper_restored (imm : BitVec 20) :
    imm.setWidth 32 <<< 12 = Rv32.upper imm := by
  apply BitVec.eq_of_getLsbD_eq
  intro i hi
  simp only [Rv32.upper, BitVec.getLsbD_shiftLeft,
    BitVec.getLsbD_append, BitVec.getLsbD_setWidth]
  interval_cases i <;> simp

/-- An instruction of the emulator that ends by going to an aligned
address, as one of the machine. -/
theorem Simulates.ends {t : Mcu L} (h : Simulates t m)
    (hcsr : t.csr = s.csr) (hclint : t.mem .clint = s.mem .clint) {a : U32}
    (hal : a.toNat % 4 = 0) :
    ∃ u, (.ok (Operation.goTo t a) : Eval (U32 × Mcu L))
        = .ok (STATUS_OK, u)
      ∧ Simulates u (m.goTo a) ∧ u.csr = s.csr
      ∧ u.mem .clint = s.mem .clint :=
  ⟨_, congrArg Except.ok (goTo_aligned hal), h.goTo a, hcsr, hclint⟩

/-- The emulator executes an instruction that it follows. -/
theorem Simulates.executes (hwf : bus.WellFormed L.device)
    (h : Simulates s m) {i : Rv32.Instruction} (hi : m.Fetches i)
    (hserved : Served L m i) :
    ∃ t, s.executeInstruction = .ok (STATUS_OK, t)
      ∧ Simulates t (i.exec m) ∧ t.csr = s.csr
      ∧ t.mem .clint = s.mem .clint := by
  obtain ⟨hal, ⟨k, hin⟩, hagrees⟩ := hserved
  have hfetch := h.fetches hi hal hin
  have hsync : s.nextPc = s.pc := h.nextPc.trans h.pc.symm
  have hnext : (m.pc + 4).toNat % 4 = 0 := by
    rw [BitVec.toNat_add]
    show (m.pc.toNat + 4) % 2 ^ 32 % 4 = 0
    omega
  rw [run_of_decodes hfetch hsync (decodes_encode s.pc i)]
  cases i with
  | lui d imm =>
      unfold operationAt Operation.run
      dsimp only
      rw [upper_restored, h.pc]
      exact (h.setX d _).ends rfl rfl hnext
  | auipc d imm =>
      unfold operationAt Operation.run
      dsimp only
      rw [upper_restored, h.pc]
      exact (h.setX d _).ends rfl rfl hnext
  | jal d offset =>
      unfold operationAt Operation.run
      dsimp only
      rw [h.pc, BitVec.add_comm (Rv32.halfwords offset)]
      exact (h.setX d _).ends rfl rfl hagrees
  | jalr d r1 offset =>
      have heven : (m.x r1 + offset.signExtend 32) &&& ~~~ 1#32
          = m.x r1 + offset.signExtend 32 := by
        have hquarter : (m.x r1 + offset.signExtend 32).toNat % 4 = 0 :=
          hagrees
        apply BitVec.eq_of_toNat_eq
        rw [toNat_and_not_one]
        omega
      unfold operationAt Operation.run Rv32.Instruction.exec
      dsimp only
      rw [h.pc, h.regs, heven]
      exact (h.setX d _).ends rfl rfl hagrees
  | branch c r1 r2 offset =>
      obtain ⟨hsigned, htarget⟩ := hagrees
      unfold operationAt Operation.run Rv32.Instruction.exec
      dsimp only
      rw [h.pc, h.regs, h.regs, taken_holds hsigned,
        BitVec.add_comm (Rv32.halfwords offset)]
      split
      · next htaken => exact h.ends rfl rfl (htarget htaken)
      · exact h.ends rfl rfl hnext
  | load l d r1 offset =>
      have hread := h.loads hagrees
      have hsize : (loadOp l).size = l.size := by cases l <;> rfl
      unfold operationAt Operation.run
      dsimp only
      rw [h.pc, h.regs, hsize, hread, ok_bind]
      exact (h.setX d _).ends rfl rfl hnext
  | store o r2 r1 offset =>
      obtain ⟨haligned, k, hinside, hrom⟩ := hagrees
      have hsize : (storeOp o).size = o.size := by cases o <;> rfl
      have haccess : IsAccessSize o.size := by cases o <;> decide
      obtain ⟨mem, hwrite, hclint, hstored⟩ :=
        h.stores hwf haccess haligned hinside hrom (m.x r2)
      have hfall : s.pc + 4 = m.pc + 4 := by rw [h.pc]
      unfold operationAt Operation.run
      dsimp only
      rw [hfall, h.regs, h.regs, hsize, hwrite, ok_bind]
      exact Simulates.ends (s := s) hstored rfl hclint hnext
  | immediate o d r1 imm =>
      have hop : (immediateOp o).aluOp = (registerOp o.op).aluOp := by
        cases o <;> rfl
      have halu : Alu.execute (m.x r1) (imm.signExtend 32)
          (registerOp o.op).aluOp
            = .ok (o.op.eval (m.x r1) (imm.signExtend 32)) :=
        execute_eval (fun ho => hagrees (by cases o <;> first | rfl | cases ho))
          (fun ho => by cases o <;> exact absurd ho (by decide))
      unfold operationAt Operation.run
      dsimp only
      rw [h.pc, h.regs, hop, halu, ok_bind]
      exact (h.setX d _).ends rfl rfl hnext
  | shift o d r1 amount =>
      have hop : (shiftOpOf o).aluOp = (registerOp o.op).aluOp := by
        cases o <;> rfl
      have halu : Alu.execute (m.x r1) (amount.setWidth 32)
          (registerOp o.op).aluOp
            = .ok (o.op.eval (m.x r1) (amount.setWidth 32)) :=
        execute_eval (fun ho => by cases o <;> cases ho) (fun _ => by
          have := amount.isLt
          rw [BitVec.toNat_setWidth]
          omega)
      unfold operationAt Operation.run
      dsimp only
      rw [h.pc, h.regs, hop, halu, ok_bind]
      exact (h.setX d _).ends rfl rfl hnext
  | register o d r1 r2 =>
      have halu := execute_eval hagrees.1 hagrees.2
      unfold operationAt Operation.run
      dsimp only
      rw [h.pc, h.regs, h.regs, halu, ok_bind]
      exact (h.setX d _).ends rfl rfl hnext

/-- The CLINT's cycle is not seen. -/
theorem Simulates.nextCycle (h : Simulates s m) :
    Simulates s.nextCycle m := by
  obtain ⟨hrf, hpc, hnextPc, hmem, -⟩ := nextCycle_frame s
  refine ⟨hpc.trans h.pc, hnextPc.trans h.nextPc, fun r => ?_,
    fun k hk i => ?_⟩
  · rw [hrf]
    exact h.regs r
  · rw [hmem k hk]
    exact h.mem k hk i

/-- One call of `nextInstruction` follows one instruction of the machine,
unless an interrupt is due. Of the CSRs it changes `mip` at most. -/
theorem nextInstruction_simulates (hwf : bus.WellFormed L.device)
    (h : Simulates s m) (hdue : ¬ s.Due) {i : Rv32.Instruction}
    (hi : m.Fetches i) (hserved : Served L m i) :
    ∃ t, s.nextInstruction = .ok t ∧ Simulates t (i.exec m)
      ∧ ∀ a, a ≠ CSR_MIP → t.csr.readCsr a = s.csr.readCsr a := by
  obtain ⟨t, hexec, hsim, hcsr, -⟩ := h.nextCycle.executes hwf hi hserved
  refine ⟨t, ?_, hsim, fun a ha => ?_⟩
  · unfold nextInstruction
    rw [serviceInterrupts_of_not_due hdue]
    exact attempt_of_ok hexec
  · rw [hcsr]
    exact (nextCycle_frame s).2.2.2.2 a ha

-- ============================================================= whole runs

/-- The memory of ROM, RAM and video memory as one. -/
def memory (s : Mcu L) (a : U32) : BitVec 8 :=
  match FirstMatch.search (fun k => k ≠ .clint ∧ (L.device k).Owns a)
    bus with
  | some k =>
      if h : (L.device k).getAddress a < (L.device k).deviceSize.toNat then
        s.mem k ⟨(L.device k).getAddress a, h⟩
      else 0
  | none => 0

/-- The machine that a state of the emulator stands for. -/
def machine (s : Mcu L) : Rv32.Machine := ⟨s.pc, s.rf.read, s.memory⟩

/-- A state whose two program counters agree simulates it. -/
theorem simulates_machine (hwf : bus.WellFormed L.device)
    (hsync : s.nextPc = s.pc) : Simulates s s.machine := by
  refine ⟨rfl, hsync, fun r => ?_, fun k hk i => ?_⟩
  · unfold Rv32.Machine.x machine
    by_cases h0 : r = 0#5
    · rw [if_pos h0, h0, s.rf.read_zero]
    · rw [if_neg h0]
  · have hi := i.isLt
    have hfit : (L.device k).limit ≤ 2 ^ 32 := hwf.fits k (mem_bus k)
    unfold MemoryDevice.limit at hfit
    generalize hb : (L.device k).baseAddress + BitVec.ofNat 32 i = b
    have hbnat : b.toNat = (L.device k).baseAddress.toNat + i := by
      rw [← hb, BitVec.toNat_add, BitVec.toNat_ofNat]
      omega
    have howns : (L.device k).Owns b := by
      unfold MemoryDevice.Owns MemoryDevice.limit
      omega
    have hoff : (L.device k).getAddress b = i := by
      have hlt := b.isLt
      unfold MemoryDevice.getAddress
      rw [BitVec.toNat_sub]
      omega
    have hsearch : FirstMatch.search
        (fun k => k ≠ .clint ∧ (L.device k).Owns b) bus = some k := by
      cases hs : FirstMatch.search
          (fun k => k ≠ .clint ∧ (L.device k).Owns b) bus with
      | none =>
          exact absurd ⟨hk, howns⟩
            (FirstMatch.search_eq_none_iff.1 hs k (mem_bus k))
      | some j =>
          obtain ⟨hj, -, hown⟩ := FirstMatch.search_eq_some hs
          rw [hwf.unique b j hj k (mem_bus k) hown howns]
    show s.mem k i = s.memory b
    unfold memory
    rw [hsearch]
    simp only [hoff, i.isLt, dif_pos]

/-- A run of the machine, followed call by call. -/
theorem Simulates.runs (hwf : bus.WellFormed L.device)
    {n : Nat} {m' : Rv32.Machine} (hrun : Rv32.Runs (Served L) n m m')
    (h : Simulates s m) (hmie : s.csr.getMie = 0) :
    ∃ t, steps nextInstruction n s = .ok t ∧ Simulates t m'
      ∧ t.csr.getMie = 0 := by
  induction hrun generalizing s with
  | done m => exact ⟨s, rfl, h, hmie⟩
  | step hi hserved _ ih =>
      obtain ⟨t, ht, hsim, hcsr⟩ := nextInstruction_simulates hwf h
        (not_due_of_getMie hmie) hi hserved
      have hmie' : t.csr.getMie = 0 := by
        unfold Csr.getMie Csr.getBit at hmie ⊢
        rw [hcsr CSR_MSTATUS (by decide), hmie]
      obtain ⟨u, hu, hend, hend'⟩ := ih hsim hmie'
      refine ⟨u, ?_, hend, hend'⟩
      rw [steps_succ_front, ht]
      exact hu

/-- The emulator implements the base integer instructions: from any state
with interrupts disabled, a run of the machine that the state stands for
whose steps are all served is made by as many calls of
`nextInstruction`, none of which fails or traps, and the state after
them is the machine's. -/
theorem runs_simulated (L : Layout) (hwf : bus.WellFormed L.device)
    (s : Mcu L) (hsync : s.nextPc = s.pc) (hmie : s.csr.getMie = 0)
    (n : Nat) (m : Rv32.Machine)
    (hrun : Rv32.Runs (Served L) n s.machine m) :
    ∃ t, steps nextInstruction n s = .ok t ∧ Simulates t m
      ∧ t.csr.getMie = 0 :=
  (simulates_machine hwf hsync).runs hwf hrun hmie

/-- A program that stores the base of RAM there and loads it again. -/
theorem runs_simulated_store_load :
    let s := program [0x400000b7, 0x0010a023, 0x0000a103]
    ∃ t, steps nextInstruction 3 s = .ok t ∧ t.pc = 0x8000000c
      ∧ t.rf.read 2 = 0x40000000 := by
  intro s
  let m₁ := (Rv32.Instruction.lui 1 0x40000).exec s.machine
  let m₂ := (Rv32.Instruction.store .sw 1 1 0).exec m₁
  have hload : Served .linker m₂ (.load .lw 2 1 0) :=
    ⟨by decide +kernel,
      ⟨.rom, by decide +kernel, by decide, by decide +kernel⟩,
      by decide +kernel,
      ⟨.ram, by decide +kernel, by decide, by decide +kernel⟩,
      fun j h4 hj => absurd hj (Nat.not_lt.2 h4)⟩
  have hstore : Served .linker m₁ (.store .sw 1 1 0) :=
    ⟨by decide +kernel,
      ⟨.rom, by decide +kernel, by decide, by decide +kernel⟩,
      by decide +kernel, .ram,
      ⟨by decide +kernel, by decide, by decide +kernel⟩, by decide⟩
  have hrun : Rv32.Runs (Served .linker) 3 s.machine
      ((Rv32.Instruction.load .lw 2 1 0).exec m₂) :=
    .step (i := .lui 1 0x40000) (by decide +kernel)
      ⟨by decide +kernel,
        ⟨.rom, by decide +kernel, by decide, by decide +kernel⟩, trivial⟩
      (.step (by decide +kernel) hstore
        (.step (by decide +kernel) hload (.done _)))
  obtain ⟨t, ht, hsim, -⟩ := runs_simulated .linker linker_wellFormed s
    (by decide) (by decide) 3 _ hrun
  refine ⟨t, ht, ?_, ?_⟩
  · rw [hsim.pc]
    decide +kernel
  · rw [hsim.regs]
    decide +kernel

end Mcu

end T89Emu
