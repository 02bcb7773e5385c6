/-
The value that a load delivers.

The instruction set extends the bytes that the load addresses to a word,
by zeros or by their sign (`Rv32.loadResult`). The core writes to `rd`
what the device hands it, and looks at `funct3` for the width only. The
CLINT hands over the bytes with zeros above, the other devices a whole
word, so the result is right when what stands above the bytes is what
the extension would put there (`Filled`); `delivered_eq_iff` compares
the two byte by byte.
-/
import T89Emu.Core.Proofs.Decode

namespace T89Emu

open Bytes Cpp Run

variable {L : Layout}

-- ===================================================== one device's answer

namespace MemoryDevice

variable (d : MemoryDevice)

/-- What the device delivers above the `size` bytes at the address is
`fill` in every bit. -/
def Filled (mem : d.Mem) (addr : U32) (size : Nat) (fill : Bool) : Prop :=
  size = 4 ∨ d.cls = .clint ∧ fill = false
    ∨ d.cls ≠ .clint ∧ d.getAddress addr + 4 ≤ d.deviceSize.toNat
      ∧ ∀ i : Fin d.deviceSize.toNat, d.getAddress addr + size ≤ i →
        i < d.getAddress addr + 4 → mem i = BitVec.fill 8 fill

variable {d} {mem : d.Mem} {addr : U32} {size : Nat}

/-- The bytes of what is delivered: those stored, then zeros. -/
theorem byteOf_delivered {width k : Nat}
    (hfit : d.getAddress addr + width ≤ d.deviceSize.toNat) (hk : k < 4) :
    byteOf ((mem.peek (d.getAddress addr) width hfit).setWidth 32) k
      = if h : k < width then mem ⟨d.getAddress addr + k, by omega⟩
        else BitVec.fill 8 false := by
  refine (byteOf_setWidth (w := 4) _ hk).trans ?_
  split
  · next h => exact mem.byteOf_peek hfit h
  · exact byteOf_of_le _ (by omega)

/-- The bytes of the extended value. -/
theorem byteOf_loadResult (w : U32) (v : BitVec (8 * size)) {k : Nat}
    (hk : k < 4) :
    byteOf (Rv32.loadResult w v) k
      = if k < size then byteOf v k
        else BitVec.fill 8 (Rv32.loadSign w v) := by
  unfold Rv32.loadResult Rv32.loadSign
  by_cases hunsigned : Rv32.loadUnsigned w = true
  · rw [if_pos hunsigned, hunsigned]
    refine (byteOf_setWidth (w := 4) v hk).trans ?_
    split
    · rfl
    · exact byteOf_of_le v (by omega)
  · rw [if_neg hunsigned, Bool.eq_false_of_not_eq_true hunsigned]
    split
    · exact byteOf_signExtend (w := 4) v hk (by omega)
    · exact byteOf_signExtend_of_le (w := 4) v hk (by omega)

/-- Filling by 0 and by 1 differ. -/
theorem fill_eq_fill_iff (a b : Bool) :
    BitVec.fill 8 a = BitVec.fill 8 b ↔ a = b := by
  cases a <;> cases b <;> decide

/-- What is delivered above the bytes asked for. -/
theorem filled_iff {fill : Bool} (hsize : IsAccessSize size)
    (hfit : d.getAddress addr + d.readWidth size ≤ d.deviceSize.toNat) :
    d.Filled mem addr size fill ↔ ∀ k, size ≤ k → k < 4 →
      byteOf ((mem.peek (d.getAddress addr) (d.readWidth size) hfit).setWidth
        32) k = BitVec.fill 8 fill := by
  have hle := hsize.le_four
  by_cases hword : size = 4
  · exact iff_of_true (.inl hword) fun k hlo hhi => by omega
  by_cases hcls : d.cls = .clint
  · -- the dereference is as wide as the access
    have hwidth : d.readWidth size = size := if_pos hcls
    have hzero : ∀ k, size ≤ k → k < 4 →
        byteOf ((mem.peek (d.getAddress addr) (d.readWidth size) hfit).setWidth
          32) k = BitVec.fill 8 false := by
      intro k hlo hhi
      rw [byteOf_delivered hfit hhi, dif_neg (by omega)]
    constructor
    · rintro (h | h | h)
      · exact absurd h hword
      · intro k hlo hhi
        rw [h.2, hzero k hlo hhi]
      · exact absurd hcls h.1
    · intro h
      have hlast := h 3 (by omega) (by omega)
      rw [hzero 3 (by omega) (by omega), fill_eq_fill_iff] at hlast
      exact .inr (.inl ⟨hcls, hlast.symm⟩)
  · -- it takes a whole word
    have hwidth : d.readWidth size = 4 := if_neg hcls
    constructor
    · rintro (h | h | ⟨-, hin, h⟩)
      · exact absurd h hword
      · exact absurd h.1 hcls
      · intro k hlo hhi
        rw [byteOf_delivered hfit hhi, dif_pos (by omega)]
        exact h _ (by simpa using hlo) (by simpa using hhi)
    · intro h
      refine .inr (.inr ⟨hcls, by omega, fun i hlo hhi => ?_⟩)
      have hk := h (i - d.getAddress addr) (by omega) (by omega)
      rw [byteOf_delivered hfit (by omega), dif_pos (by omega)] at hk
      rw [← hk]
      congr 1
      exact Fin.ext (by simp only; omega)

/-- Then the dereference stays inside the device. -/
theorem fits_of_filled {fill : Bool} {v : BitVec (8 * size)}
    (hstored : mem.load (d.getAddress addr) size = some v)
    (hfill : d.Filled mem addr size fill) :
    d.getAddress addr + d.readWidth size ≤ d.deviceSize.toNat := by
  have hin : d.getAddress addr + size ≤ d.deviceSize.toNat := by
    by_contra hout
    rw [mem.load_of_lt (by omega)] at hstored
    cases hstored
  unfold readWidth
  rcases hfill with h | h | h
  · split <;> omega
  · rw [if_pos h.1]
    exact hin
  · rw [if_neg h.1]
    exact h.2.1

/-- The device delivers the extended value exactly when it stores the
bytes of the value and fills up with its sign. -/
theorem delivered_eq_iff (w : U32) (hsize : IsAccessSize size)
    (hfit : d.getAddress addr + d.readWidth size ≤ d.deviceSize.toNat)
    (v : BitVec (8 * size)) :
    (mem.peek (d.getAddress addr) (d.readWidth size) hfit).setWidth 32
        = Rv32.loadResult w v
      ↔ mem.load (d.getAddress addr) size = some v
        ∧ d.Filled mem addr size (Rv32.loadSign w v) := by
  have hle := le_readWidth (d := d) hsize
  have hle4 := hsize.le_four
  have hstored : ∀ k (hk : k < size),
      byteOf ((mem.peek (d.getAddress addr) (d.readWidth size) hfit).setWidth
        32) k = mem ⟨d.getAddress addr + k, by omega⟩ := by
    intro k hk
    rw [byteOf_delivered hfit (by omega), dif_pos (by omega)]
  rw [filled_iff hsize hfit, mem.load_of_le (by omega), Option.some.injEq]
  constructor
  · intro h
    refine ⟨eq_of_byteOf_eq fun k hk => ?_, fun k hlo hhi => ?_⟩
    · rw [mem.byteOf_peek _ hk, ← hstored k hk, h,
        byteOf_loadResult w v (by omega), if_pos hk]
    · rw [h, byteOf_loadResult w v hhi, if_neg (by omega)]
  · rintro ⟨rfl, hfill⟩
    refine eq_of_byteOf_eq (w := 4) fun k hk => ?_
    rw [byteOf_loadResult w _ hk]
    by_cases hlow : k < size
    · rw [if_pos hlow, mem.byteOf_peek _ hlow, hstored k hlow]
    · rw [if_neg hlow]
      exact hfill k (by omega) hk

end MemoryDevice

namespace Mcu

-- ================================================ statement vocabulary

/-- The address of the load. -/
def loadAddr (s : Mcu L) (w : U32) : U32 :=
  s.rf.read (rs1 w) + Rv32.iImmediate w

/-- The bytes that the load addresses, as the device stores them: none if
the access is not wholly inside it. -/
def addressed (s : Mcu L) (w : U32) (k : DeviceClass) :
    Option (BitVec (8 * Rv32.loadSize w)) :=
  (s.mem k).load ((L.device k).getAddress (s.loadAddr w)) (Rv32.loadSize w)

/-- The load leaves in `rd` what the instruction set makes of the bytes
stored in the device, goes on to the next word and changes nothing
else. -/
def LoadsValue (s : Mcu L) (w : U32) (k : DeviceClass) : Prop :=
  ∃ v, s.addressed w k = some v
    ∧ s.executeInstruction = .ok (STATUS_OK,
      { s with
        rf := s.rf.write (Rv32.loadResult w v) (rd w)
        pc := s.pc + 4
        nextPc := s.pc + 4 })

/-- The bus asks a device that stores these bytes (the device itself, if
no other one has the address), and that device fills up with their
extension. -/
def Delivers (s : Mcu L) (w : U32) (k : DeviceClass) : Prop :=
  ∃ v, s.addressed w k = some v
    ∧ ∃ j, bus.select L.device (s.loadAddr w) = some j
      ∧ s.addressed w j = some v
      ∧ (L.device j).Filled (s.mem j) (s.loadAddr w) (Rv32.loadSize w)
        (Rv32.loadSign w v)

-- ============================================================ the operands

variable {s : Mcu L} {w : U32}

/-- The core looks up the size of a load. -/
theorem getMemSize_of_isLoad (h : Rv32.IsLoad w) :
    MemControlUnit.getMemSize (funct3 w) = Rv32.loadSize w := by
  have hlow : w.extractLsb' 12 2 = (funct3 w).extractLsb' 0 2 := by
    apply BitVec.eq_of_getLsbD_eq
    intro i hi
    unfold funct3
    rw [BitVec.getLsbD_extractLsb', BitVec.getLsbD_extractLsb',
      BitVec.getLsbD_extractLsb']
    simp [hi]
    omega
  have hf : funct3 w = 0 ∨ funct3 w = 1 ∨ funct3 w = 2 ∨ funct3 w = 4
      ∨ funct3 w = 5 := h.2
  unfold Rv32.loadSize
  rw [hlow]
  rcases hf with hf | hf | hf | hf | hf <;> rw [hf] <;> rfl

theorem isAccessSize_loadSize (h : Rv32.IsLoad w) :
    IsAccessSize (Rv32.loadSize w) := by
  have hf : funct3 w = 0 ∨ funct3 w = 1 ∨ funct3 w = 2 ∨ funct3 w = 4
      ∨ funct3 w = 5 := h.2
  rw [← getMemSize_of_isLoad h]
  rcases hf with hf | hf | hf | hf | hf <;> rw [hf] <;> decide

/-- It forms the address of a load. -/
theorem effectiveAddr_of_isLoad (h : Rv32.IsLoad w) :
    s.effectiveAddr w = s.loadAddr w := by
  have hop : opcodeOf w = .LOAD := opcodeOf_of_opcode h.1
  unfold effectiveAddr loadAddr
  rw [getImmediate_i (.inr hop)]

-- =========================================================== what is read

/-- An aligned read of the bus is one dereference in the device that the
loop finds. -/
theorem busRead_eq_ok_iff {addr : U32} {size : Nat} {x : U32}
    (hsize : IsAccessSize size) (hal : addr.toNat % size = 0) :
    s.busRead addr size = .ok (STATUS_OK, some x)
      ↔ ∃ j, bus.select L.device addr = some j
        ∧ ∃ hfit, ((s.mem j).peek ((L.device j).getAddress addr)
          ((L.device j).readWidth size) hfit).setWidth 32 = x := by
  unfold busRead
  cases hsel : bus.select L.device addr with
  | none =>
      rw [Bus.read_of_select_none hsel]
      refine iff_of_false (fun h => ?_) ?_
      · exact absurd (Prod.mk.inj (Except.ok.inj h)).1 (by decide)
      · rintro ⟨j, hj, -⟩
        cases hj
  | some j =>
      rw [Bus.read_of_select hsel, MemoryDevice.read_eq hsize hal]
      by_cases hfit : (L.device j).getAddress addr
          + (L.device j).readWidth size ≤ (L.device j).deviceSize.toNat
      · rw [MemoryDevice.loadAt_of_le hfit, ok_bind]
        constructor
        · intro h
          exact ⟨j, rfl, hfit,
            Option.some.inj (Prod.mk.inj (Except.ok.inj h)).2⟩
        · rintro ⟨j', hj', _, rfl⟩
          cases hj'
          rfl
      · rw [MemoryDevice.loadAt_of_lt (by omega)]
        refine iff_of_false (fun h => by cases h) ?_
        rintro ⟨j', hj', hfit', -⟩
        cases hj'
        exact hfit hfit'

/-- A load that completes leaves in `rd` what the bus has read, goes on
and changes nothing else. -/
theorem executeInstruction_load_iff {x : U32} (hw : s.Fetches w)
    (hsync : s.nextPc = s.pc) (hload : Rv32.IsLoad w) (hrd : rd w ≠ 0#5) :
    s.executeInstruction = .ok (STATUS_OK,
        { s with
          rf := s.rf.write x (rd w)
          pc := s.pc + 4
          nextPc := s.pc + 4 })
      ↔ s.busRead (s.loadAddr w) (Rv32.loadSize w)
        = .ok (STATUS_OK, some x) := by
  have hop : opcodeOf w = .LOAD := opcodeOf_of_opcode hload.1
  have htarget : s.target w = s.nextPc + 4 := by
    unfold target NextPc.update
    rw [hop]
  rw [← effectiveAddr_of_isLoad hload, ← getMemSize_of_isLoad hload]
  constructor
  · intro h
    rcases executeInstruction_cases h with
      ⟨-, hcode, -⟩ | ⟨w', t, hw', ht, ⟨-, hcode, -⟩ | ⟨-, -, hend⟩⟩
    · exact absurd rfl hcode
    · exact absurd hcode (by decide)
    · obtain rfl := hw.unique hw'
      have hrf := congrArg (fun u : Mcu L => u.rf.read (rd w)) hend
      dsimp only at hrf
      rw [s.rf.read_write_self hrd] at hrf
      cases ht with
      | writeback hv =>
          cases hv with
          | load _ hread =>
              rw [show (s.writeReg _ (rd w)).rf.read (rd w) = _ from
                s.rf.read_write_self hrd _] at hrf
              rw [hrf]
              exact hread
          | lui h => rw [hop] at h; cases h
          | auipc h => rw [hop] at h; cases h
          | link h => rw [hop] at h; rcases h with h | h <;> cases h
          | itype h => rw [hop] at h; cases h
          | rtype h => rw [hop] at h; cases h
      | branch h => rw [hop] at h; cases h
      | store h => rw [hop] at h; cases h
      | system h => rw [hop] at h; cases h
  · intro h
    exact executeInstruction_sequential hw (.writeback (.load hop h)) hsync
      htarget

-- ============================================================== the result

/-- A load delivers the value of the bytes in the device exactly when the
bus finds these bytes and what comes above them is their extension. -/
theorem loads_value_iff (s : Mcu L) (w : U32) (k : DeviceClass)
    (hw : s.Fetches w) (hsync : s.nextPc = s.pc) (hload : Rv32.IsLoad w)
    (hrd : rd w ≠ 0#5)
    (hal : (s.loadAddr w).toNat % Rv32.loadSize w = 0) :
    s.LoadsValue w k ↔ s.Delivers w k := by
  have hsize := isAccessSize_loadSize hload
  unfold LoadsValue Delivers
  refine exists_congr fun v => and_congr_right fun _ => ?_
  rw [executeInstruction_load_iff hw hsync hload hrd,
    busRead_eq_ok_iff hsize hal]
  refine exists_congr fun j => and_congr_right fun _ => ?_
  constructor
  · rintro ⟨hfit, hx⟩
    exact (MemoryDevice.delivered_eq_iff w hsize hfit v).1 hx
  · rintro ⟨hstored, hfill⟩
    have hfit := MemoryDevice.fits_of_filled hstored hfill
    exact ⟨hfit,
      (MemoryDevice.delivered_eq_iff w hsize hfit v).2 ⟨hstored, hfill⟩⟩

/-- After `auipc x2, 0`, the load `lb x1, 0(x2)` should find the lowest
byte of the first word, and leaves the whole word in `x1`. -/
theorem byte_load_takes_word :
    ∃ s : Mcu .linker,
      steps nextInstruction 1 (program [0x00000117, 0x00010083]) = .ok s
        ∧ s.Fetches 0x00010083 ∧ s.nextPc = s.pc
        ∧ s.addressed 0x00010083 .rom = some 0x17#8
        ∧ s.executeInstruction.map (fun r => r.2.rf.read 1#5)
          = .ok 0x00000117
        ∧ ¬ s.LoadsValue 0x00010083 .rom := by
  have hrun : (steps nextInstruction 1
      (program [0x00000117, 0x00010083])).map (fun t =>
        (t.busRead t.pc WORD, t.nextPc == t.pc,
          t.addressed 0x00010083 .rom,
          t.executeInstruction.map fun r => r.2.rf.read 1#5))
      = .ok (.ok (STATUS_OK, some 0x00010083), true, some 0x17#8,
          .ok 0x00000117) := by
    decide +kernel
  obtain ⟨s, hs, hobs⟩ := map_eq_ok.1 hrun
  obtain ⟨hfetch, hobs⟩ := Prod.mk.inj hobs
  obtain ⟨hsync, hobs⟩ := Prod.mk.inj hobs
  obtain ⟨hstored, hexec⟩ := Prod.mk.inj hobs
  refine ⟨s, hs, hfetch, beq_iff_eq.1 hsync, hstored, hexec, ?_⟩
  rintro ⟨v, hv, hload⟩
  rw [hstored] at hv
  cases hv
  rw [hload] at hexec
  have hne : 1#5 ≠ 0#5 := by decide
  have hx1 : Rv32.loadResult 0x00010083 0x17#8 = (0x00000117 : U32) :=
    (s.rf.read_write_self hne _).symm.trans (Except.ok.inj hexec)
  exact absurd hx1 (by decide)

/-- The load `lw x1, 0(x2)` finds it. -/
theorem word_load_delivers :
    ∃ s : Mcu .linker,
      steps nextInstruction 1 (program [0x00000117, 0x00012083]) = .ok s
        ∧ s.LoadsValue 0x00012083 .rom := by
  have hrun : (steps nextInstruction 1
      (program [0x00000117, 0x00012083])).map (fun t =>
        (t.busRead t.pc WORD, t.nextPc == t.pc, t.loadAddr 0x00012083,
          t.addressed 0x00012083 .rom))
      = .ok (.ok (STATUS_OK, some 0x00012083), true, 0x80000000,
          some 0x00000117#32) := by
    decide +kernel
  obtain ⟨s, hs, hobs⟩ := map_eq_ok.1 hrun
  obtain ⟨hfetch, hobs⟩ := Prod.mk.inj hobs
  obtain ⟨hsync, hobs⟩ := Prod.mk.inj hobs
  obtain ⟨haddr, hstored⟩ := Prod.mk.inj hobs
  refine ⟨s, hs, (loads_value_iff s 0x00012083 .rom hfetch
    (beq_iff_eq.1 hsync) (by decide) (by decide) ?_).2
      ⟨_, hstored, .rom, ?_, hstored, .inl (by decide)⟩⟩
  · rw [haddr]
    decide
  · rw [haddr]
    decide

end Mcu

end T89Emu
