/-
The cycle counter.

`mcycle` is the first eight bytes of the CLINT. The CLINT's cycle adds 1
to it, once in a call of `nextInstruction`, and the only other way to
these bytes is a STORE that lands on one of them (`StoresCounter`).
Whatever else happens in between, `n` calls count `n`
(`mcycle_counts_cycles`).
-/
import T89Emu.Core.Proofs.Interrupt
import T89Emu.Core.Proofs.Step

namespace T89Emu

open Bytes Cpp Run

variable {L : Layout}

namespace ClintMemoryDevice

/-- The counter depends on its eight bytes only. -/
theorem mcycle_congr {mem mem' : Mem}
    (h : ∀ i : Fin CLINT_SIZE.toNat, i.val < 8 → mem' i = mem i) :
    mcycle mem' = mcycle mem :=
  Buffer.peek_congr (by decide) fun i _ hi => h i hi

/-- The word at the counter's offset is its low half. -/
theorem mcycle_low (mem : Mem) :
    mem.peek MCYCLE_OFFSET 4 (by decide) = (mcycle mem).setWidth 32 := by
  refine eq_of_byteOf_eq (w := 4) fun k hk => ?_
  rw [byteOf_setWidth _ hk, mcycle, Buffer.byteOf_peek _ _ hk,
    Buffer.byteOf_peek _ _ (by omega)]

/-- The word behind it is its high half. -/
theorem mcycle_high (mem : Mem) :
    mem.peek (MCYCLE_OFFSET + 4) 4 (by decide)
      = (mcycle mem).extractLsb' 32 32 := by
  refine eq_of_byteOf_eq (w := 4) fun k hk => ?_
  have hbyte : byteOf ((mcycle mem).extractLsb' 32 32) k
      = byteOf (mcycle mem) (4 + k) := byteOf_extractLsb' (mcycle mem) 4 hk
  rw [hbyte, mcycle, Buffer.byteOf_peek _ _ hk,
    Buffer.byteOf_peek _ _ (by omega)]
  congr 2
  omega

end ClintMemoryDevice

namespace Mcu

-- ================================================ statement vocabulary

/-- The instruction to be executed is a STORE, and one of the bytes it
stores is in the CLINT's counter. -/
def StoresCounter (s : Mcu L) : Prop :=
  ∃ w, s.Fetches w ∧ opcodeOf w = .STORE
    ∧ bus.select L.device (s.effectiveAddr w) = some .clint
    ∧ ∃ i < MemControlUnit.getMemSize (funct3 w),
      (L.device .clint).getAddress (s.effectiveAddr w) + i < 8

/-- The counter of a machine. -/
def mcycle (s : Mcu L) : U64 := ClintMemoryDevice.mcycle (s.mem .clint)

-- ========================================================= what keeps it

/-- A write through the bus that puts no byte in the counter. -/
theorem mcycle_busWrite {s : Mcu L} {addr data code : U32} {size : Nat}
    {mem : Heap L.device} (h : s.busWrite addr data size = .ok (code, mem))
    (hno : ¬ (bus.select L.device addr = some .clint
      ∧ ∃ i < size, (L.device .clint).getAddress addr + i < 8)) :
    ClintMemoryDevice.mcycle (mem .clint) = s.mcycle := by
  refine ClintMemoryDevice.mcycle_congr fun i hi => ?_
  unfold busWrite at h
  cases hsel : bus.select L.device addr with
  | none =>
      rw [Bus.write_of_select_none hsel] at h
      cases h
      rfl
  | some k =>
      rw [Bus.write_of_select hsel] at h
      obtain ⟨⟨status, m⟩, hw, h⟩ := bind_eq_ok.1 h
      cases h
      by_cases hk : k = .clint
      · subst hk
        have hout : ¬ ((L.device .clint).getAddress addr ≤ i
            ∧ i < (L.device .clint).getAddress addr + size) := by
          rintro ⟨hlo, hhi⟩
          refine hno ⟨hsel, i - (L.device .clint).getAddress addr, ?_, ?_⟩
          · omega
          · omega
        rw [Function.update_self]
        exact MemoryDevice.write_frame hout hw
      · rw [Function.update_of_ne (Ne.symm hk)]

/-- One instruction. -/
theorem mcycle_executeInstruction {s t : Mcu L} {code : U32}
    (hno : ¬ s.StoresCounter)
    (h : s.executeInstruction = .ok (code, t)) : t.mcycle = s.mcycle := by
  rcases executeInstruction_mem_cases h with hmem | ⟨w, hw, hop, hst⟩
  · unfold mcycle
    rw [hmem]
  · exact mcycle_busWrite hst fun hhit => hno ⟨w, hw, hop, hhit⟩

/-- The CLINT's cycle counts, and an interrupt entry does not touch the
counter. -/
theorem mcycle_serviceInterrupts (s : Mcu L) :
    s.serviceInterrupts.mcycle = s.mcycle + 1 := by
  have hcount : s.nextCycle.mcycle = s.mcycle + 1 := s.mcycle_after_nextCycle
  by_cases hdue : s.Due
  · have hmem := (interrupt_frame hdue).2.2.1
    unfold mcycle at hcount ⊢
    rw [hmem, hcount]
  · rw [serviceInterrupts_of_not_due hdue, hcount]

/-- One cycle of the core. -/
theorem mcycle_nextInstruction {s t : Mcu L}
    (hno : ∀ u, Attempts s u → ¬ u.StoresCounter)
    (h : s.nextInstruction = .ok t) : t.mcycle = s.mcycle + 1 := by
  refine nextInstruction_keeps (P := fun u => u.mcycle = s.mcycle + 1) h
    s.mcycle_serviceInterrupts ?_ fun u code hu => ?_
  · intro u v code hatt hu hv
    exact (mcycle_executeInstruction (hno u hatt) hv).trans hu
  · -- a trap entry writes no memory
    exact hu

-- ================================================================ the run

/-- A run of calls. -/
theorem mcycle_run {s t : Mcu L} {n : Nat}
    (h : steps nextInstruction n s = .ok t)
    (hno : ∀ m < n, ∀ u, steps nextInstruction m s = .ok u →
      ∀ v, Attempts u v → ¬ v.StoresCounter) :
    t.mcycle.toNat = (s.mcycle.toNat + n) % 2 ^ 64 := by
  induction n generalizing t with
  | zero =>
      rw [steps_zero, Except.ok.injEq] at h
      rw [← h, Nat.add_zero, Nat.mod_eq_of_lt s.mcycle.isLt]
  | succ n ih =>
      obtain ⟨u, hu, hut⟩ := steps_succ_eq_ok.1 h
      have hbefore := ih hu fun m hm => hno m (by omega)
      rw [mcycle_nextInstruction (hno n (by omega) u hu) hut,
        BitVec.toNat_add, hbefore]
      show ((s.mcycle.toNat + n) % 2 ^ 64 + 1) % 2 ^ 64 = _
      omega

/-- A word that the bus reads in the CLINT. -/
private theorem busRead_clint (s : Mcu L) {addr : U32} {o : Nat}
    (hsel : bus.select L.device addr = some .clint)
    (hoff : (L.device .clint).getAddress addr = o)
    (hal : addr.toNat % 4 = 0) (hin : o + 4 ≤ CLINT_SIZE.toNat) :
    s.busRead addr WORD
      = .ok (STATUS_OK, some ((s.mem .clint).peek o 4 hin)) := by
  subst hoff
  unfold busRead
  rw [Bus.read_of_select hsel, MemoryDevice.read_eq isAccessSize_word hal,
    show (L.device .clint).readWidth WORD = 4 from rfl,
    MemoryDevice.loadAt_of_le hin, ok_bind, BitVec.setWidth_eq]

/-- The guest reads the two halves of the counter. -/
theorem busRead_mcycle (s : Mcu L) :
    (bus.select L.device CLINT_BASE = some .clint →
      s.busRead CLINT_BASE WORD
        = .ok (STATUS_OK, some (s.mcycle.setWidth 32)))
    ∧ (bus.select L.device (CLINT_BASE + 4) = some .clint →
      s.busRead (CLINT_BASE + 4) WORD
        = .ok (STATUS_OK, some (s.mcycle.extractLsb' 32 32))) := by
  constructor
  · intro hsel
    have hoff : (L.device .clint).getAddress CLINT_BASE = 0 := by
      show (CLINT_BASE - CLINT_BASE).toNat = 0
      decide
    rw [s.busRead_clint hsel hoff (by decide) (by decide)]
    exact congrArg (fun v : U32 => Except.ok (STATUS_OK, some v))
      (ClintMemoryDevice.mcycle_low (s.mem .clint))
  · intro hsel
    have hoff : (L.device .clint).getAddress (CLINT_BASE + 4) = 4 := by
      show (CLINT_BASE + 4 - CLINT_BASE).toNat = 4
      decide
    rw [s.busRead_clint hsel hoff (by decide) (by decide)]
    exact congrArg (fun v : U32 => Except.ok (STATUS_OK, some v))
      (ClintMemoryDevice.mcycle_high (s.mem .clint))

/-- The counter counts the calls, whatever they execute: after `n` of
them, none of which executed a STORE on the counter, it is `n` ahead,
modulo 2^64, and the halves that the guest reads are those of the sum
with the carry between them. -/
theorem mcycle_counts_cycles (L : Layout) (n : Nat) (s t : Mcu L)
    (h : steps nextInstruction n s = .ok t)
    (hno : ∀ m < n, ∀ u, steps nextInstruction m s = .ok u →
      ∀ v, Attempts u v → ¬ v.StoresCounter) :
    t.mcycle.toNat = (s.mcycle.toNat + n) % 2 ^ 64
      ∧ (bus.select L.device CLINT_BASE = some .clint →
        t.busRead CLINT_BASE WORD = .ok (STATUS_OK,
          some (BitVec.ofNat 32 (s.mcycle.toNat + n))))
      ∧ (bus.select L.device (CLINT_BASE + 4) = some .clint →
        t.busRead (CLINT_BASE + 4) WORD = .ok (STATUS_OK,
          some (BitVec.ofNat 32 ((s.mcycle.toNat + n) / 2 ^ 32)))) := by
  have hcount := mcycle_run h hno
  have hlow : t.mcycle.setWidth 32
      = BitVec.ofNat 32 (s.mcycle.toNat + n) := by
    apply BitVec.eq_of_toNat_eq
    rw [BitVec.toNat_setWidth, BitVec.toNat_ofNat, hcount]
    omega
  have hhigh : t.mcycle.extractLsb' 32 32
      = BitVec.ofNat 32 ((s.mcycle.toNat + n) / 2 ^ 32) := by
    apply BitVec.eq_of_toNat_eq
    rw [BitVec.extractLsb'_toNat, BitVec.toNat_ofNat, hcount,
      Nat.shiftRight_eq_div_pow]
    omega
  obtain ⟨hread, hread'⟩ := t.busRead_mcycle
  rw [hlow] at hread
  rw [hhigh] at hread'
  exact ⟨hcount, hread, hread'⟩

/-- With the low half at its top, one call that meets an illegal
instruction: the handler's is executed in the same call, and the carry
is in the high half. -/
theorem mcycle_carries_in_trap :
    let s : Mcu .linker := { program [0] with
      mem := Function.update (program [0]).mem .clint
        (((program [0]).mem .clint).poke 0 8 0xffffffff#64) }
    ∃ t, steps nextInstruction 1 s = .ok t
      ∧ t.busRead CLINT_BASE WORD = .ok (STATUS_OK, some 0)
      ∧ t.busRead (CLINT_BASE + 4) WORD = .ok (STATUS_OK, some 1) := by
  intro s
  have hsel : bus.select Layout.linker.device CLINT_BASE = some .clint
      ∧ bus.select Layout.linker.device (CLINT_BASE + 4) = some .clint := by
    decide
  have hstart : s.mcycle.toNat = 0xffffffff := by decide +kernel
  have hfirst : s.serviceInterrupts.busRead s.serviceInterrupts.pc WORD
      = .ok (STATUS_OK, some 0) := by decide +kernel
  have hsecond : s.serviceInterrupts.executeInstruction.map
      (fun r => (r.2.takeTrap r.1).busRead (r.2.takeTrap r.1).pc WORD)
      = .ok (.ok (LOAD_ACCESS_FAULT, none)) := by decide +kernel
  have hrun : (steps nextInstruction 1 s).map (fun _ => ())
      = .ok () := by decide +kernel
  obtain ⟨t, ht, -⟩ := map_eq_ok.1 hrun
  have hno : ∀ m < 1, ∀ u, steps nextInstruction m s = .ok u →
      ∀ v, Attempts u v → ¬ v.StoresCounter := by
    intro m hm u hu v hv
    obtain rfl : m = 0 := by omega
    rw [steps_zero, Except.ok.injEq] at hu
    subst hu
    rintro ⟨w, hw, hop, -⟩
    cases hv with
    | first =>
        rw [hw.unique hfirst] at hop
        exact absurd hop (by decide)
    | handler h hne =>
        rw [h] at hsecond
        have hfetch := Except.ok.inj hsecond
        unfold Fetches at hw
        dsimp only at hfetch
        rw [hw] at hfetch
        cases hfetch
  obtain ⟨-, hlow, hhigh⟩ := mcycle_counts_cycles .linker 1 s t ht hno
  rw [hstart] at hlow hhigh
  exact ⟨t, ht, hlow hsel.1, hhigh hsel.2⟩

end Mcu

end T89Emu
