/-
What a device access does, one equation per operation. Everything above
the devices cites these and never unfolds an access.

Reads differ between the classes in one number only: `readWidth`, the
width of the last dereference. The missing `break`s of ROM, RAM and
VRAM make it 4 whatever was asked for; the CLINT's is the size itself
(`read_eq`). Writes are exact in every class that takes them
(`write_eq`).
-/
import T89Emu.Memory.Device

namespace T89Emu

open Bytes Cpp

/-- The sizes of the guest's loads and stores. -/
def IsAccessSize (size : Nat) : Prop := size = 1 ∨ size = 2 ∨ size = 4

instance (size : Nat) : Decidable (IsAccessSize size) :=
  inferInstanceAs (Decidable (_ ∨ _))

theorem isAccessSize_word : IsAccessSize WORD := .inr (.inr rfl)

theorem IsAccessSize.pos {size : Nat} (h : IsAccessSize size) :
    0 < size := by
  unfold IsAccessSize at h
  omega

theorem IsAccessSize.le_four {size : Nat} (h : IsAccessSize size) :
    size ≤ 4 := by
  unfold IsAccessSize at h
  omega

namespace MemoryDevice

variable {d : MemoryDevice} {mem : d.Mem} {addr : U32} {size : Nat}

-- =========================================================== alignment

/-- The alignment check, for the sizes it is meant for. -/
theorem checkAlignment_iff (hsize : IsAccessSize size) :
    checkAlignment addr size = true ↔ addr.toNat % size = 0 := by
  rcases hsize with rfl | rfl | rfl
  · simp [checkAlignment, Nat.mod_one]
  · exact beq_iff_eq
  · exact beq_iff_eq

/-- A failed check, spelled as the accesses test it. -/
theorem checkAlignment_eq_false_iff (hsize : IsAccessSize size) :
    checkAlignment addr size = false ↔ addr.toNat % size ≠ 0 := by
  rw [← Bool.not_eq_true, checkAlignment_iff hsize]

-- ======================================================= dereferences

/-- Inside the array a dereference delivers its bytes. -/
theorem loadAt_of_le {w : Nat}
    (h : d.getAddress addr + w ≤ d.deviceSize.toNat) :
    d.loadAt mem addr w
      = .ok ((mem.peek (d.getAddress addr) w h).setWidth 32) := by
  unfold loadAt
  rw [Buffer.load_of_le mem h]
  rfl

/-- One that leaves the array is undefined. -/
theorem loadAt_of_lt {w : Nat}
    (h : d.deviceSize.toNat < d.getAddress addr + w) :
    d.loadAt mem addr w = .error .outOfBounds := by
  unfold loadAt
  rw [Buffer.load_of_lt mem h]
  rfl

/-- A narrow dereference in front of a wide one at the same place adds
no outcome of its own. -/
theorem loadAt_bind_loadAt {α : Type _} {w w' : Nat} (hw : w ≤ w')
    (f : U32 → Eval α) :
    (d.loadAt mem addr w >>= fun _ => d.loadAt mem addr w' >>= f)
      = (d.loadAt mem addr w' >>= f) := by
  by_cases h : d.getAddress addr + w ≤ d.deviceSize.toNat
  · rw [loadAt_of_le h, ok_bind]
  · rw [loadAt_of_lt (by omega), loadAt_of_lt (w := w') (by omega)]
    rfl

theorem storeAt_of_le {w : Nat} {value : U32}
    (h : d.getAddress addr + w ≤ d.deviceSize.toNat) :
    d.storeAt mem addr value w
      = .ok (mem.poke (d.getAddress addr) w (value.setWidth (8 * w))) := by
  unfold storeAt
  rw [Buffer.store_of_le mem _ h]
  rfl

theorem storeAt_of_lt {w : Nat} {value : U32}
    (h : d.deviceSize.toNat < d.getAddress addr + w) :
    d.storeAt mem addr value w = .error .outOfBounds := by
  unfold storeAt
  rw [Buffer.store_of_lt mem _ h]
  rfl

-- ============================================================== reading

/-- The width that a read of `size` bytes dereferences in the end. -/
def readWidth (d : MemoryDevice) (size : Nat) : Nat :=
  if d.cls = .clint then size else 4

theorem le_readWidth (hsize : IsAccessSize size) :
    size ≤ d.readWidth size := by
  unfold readWidth
  split
  · exact Nat.le_refl _
  · exact hsize.le_four

/-- Without `break`s, only the word-sized dereference counts. -/
private theorem fallThroughRead_eq (hsize : IsAccessSize size)
    (hal : addr.toNat % size = 0) :
    d.fallThroughRead mem addr size
      = (d.loadAt mem addr 4 >>= fun v => .ok (STATUS_OK, some v)) := by
  unfold fallThroughRead
  rw [(checkAlignment_iff hsize).2 hal, if_neg (by simp)]
  rcases hsize with rfl | rfl | rfl
  · show (d.loadAt mem addr 1 >>= fun _ => d.loadAt mem addr 2 >>= fun _ =>
      d.loadAt mem addr 4 >>= fun v => .ok (STATUS_OK, some v)) = _
    rw [loadAt_bind_loadAt (by omega), loadAt_bind_loadAt (by omega)]
  · show (d.loadAt mem addr 2 >>= fun _ =>
      d.loadAt mem addr 4 >>= fun v => .ok (STATUS_OK, some v)) = _
    rw [loadAt_bind_loadAt (by omega)]
  · rfl

/-- With `break`s, the dereference is as wide as the access. -/
private theorem clintRead_eq (hsize : IsAccessSize size)
    (hal : addr.toNat % size = 0) :
    ClintMemoryDevice.read d mem addr size
      = (d.loadAt mem addr size >>= fun v => .ok (STATUS_OK, some v)) := by
  unfold ClintMemoryDevice.read
  rw [(checkAlignment_iff hsize).2 hal, if_neg (by simp)]
  rcases hsize with rfl | rfl | rfl
  · rfl
  · rfl
  · rfl

/-- An aligned read, in every class. -/
theorem read_eq (hsize : IsAccessSize size) (hal : addr.toNat % size = 0) :
    d.read mem addr size
      = (d.loadAt mem addr (d.readWidth size) >>= fun v =>
          .ok (STATUS_OK, some v)) := by
  unfold MemoryDevice.read readWidth
  cases hcls : d.cls with
  | rom => exact fallThroughRead_eq hsize hal
  | ram => exact fallThroughRead_eq hsize hal
  | video => exact fallThroughRead_eq hsize hal
  | clint => exact clintRead_eq hsize hal

/-- A misaligned read is refused, in every class. -/
theorem read_misaligned (hsize : IsAccessSize size)
    (hal : addr.toNat % size ≠ 0) :
    d.read mem addr size = .ok (LOAD_ADDRESS_MISALIGNED, none) := by
  have hcheck := (checkAlignment_eq_false_iff hsize).2 hal
  unfold MemoryDevice.read
  cases hcls : d.cls with
  | rom => exact if_pos hcheck
  | ram => exact if_pos hcheck
  | video => exact if_pos hcheck
  | clint => exact if_pos hcheck

-- ============================================================== writing

/-- ROM refuses every write. -/
theorem write_rom {value : U32} (hcls : d.cls = .rom) :
    d.write mem addr value size = .ok (ILLEGAL_INSTRUCTION, mem) := by
  unfold MemoryDevice.write
  rw [hcls]
  rfl

private theorem sizedWrite_eq {value : U32} (hsize : IsAccessSize size)
    (hal : addr.toNat % size = 0) :
    d.sizedWrite mem addr value size
      = (d.storeAt mem addr value size >>= fun mem =>
          .ok (STATUS_OK, mem)) := by
  unfold sizedWrite
  rw [(checkAlignment_iff hsize).2 hal, if_neg (by simp)]
  rcases hsize with rfl | rfl | rfl
  · rfl
  · rfl
  · rfl

/-- An aligned write, in every class but ROM. -/
theorem write_eq {value : U32} (hcls : d.cls ≠ .rom)
    (hsize : IsAccessSize size) (hal : addr.toNat % size = 0) :
    d.write mem addr value size
      = (d.storeAt mem addr value size >>= fun mem =>
          .ok (STATUS_OK, mem)) := by
  unfold MemoryDevice.write
  cases h : d.cls with
  | rom => exact absurd h hcls
  | ram => exact sizedWrite_eq hsize hal
  | video => exact sizedWrite_eq hsize hal
  | clint => exact sizedWrite_eq hsize hal

/-- A misaligned write is refused, in every class but ROM. -/
theorem write_misaligned {value : U32} (hcls : d.cls ≠ .rom)
    (hsize : IsAccessSize size) (hal : addr.toNat % size ≠ 0) :
    d.write mem addr value size = .ok (STORE_ADDRESS_MISALIGNED, mem) := by
  have hcheck := (checkAlignment_eq_false_iff hsize).2 hal
  unfold MemoryDevice.write
  cases h : d.cls with
  | rom => exact absurd h hcls
  | ram => exact if_pos hcheck
  | video => exact if_pos hcheck
  | clint => exact if_pos hcheck

-- ============================================================= statuses

/-- A status in front of a delivered value. -/
private theorem status_of_bind {α β : Type _} {x : Eval α} {g : α → β}
    {st status : U32} {b : β} (h : (x >>= fun a => .ok (st, g a))
      = (.ok (status, b) : Eval (U32 × β))) : status = st := by
  obtain ⟨a, -, ha⟩ := bind_eq_ok.1 h
  exact (Prod.mk.inj (Except.ok.inj ha)).1.symm

/-- What a read answers, whatever its size. -/
theorem read_status {status : U32} {v : Option U32}
    (h : d.read mem addr size = .ok (status, v)) :
    status = STATUS_OK ∨ status = LOAD_ADDRESS_MISALIGNED := by
  have hfall : d.fallThroughRead mem addr size = .ok (status, v) →
      status = STATUS_OK ∨ status = LOAD_ADDRESS_MISALIGNED := by
    intro hr
    unfold fallThroughRead at hr
    split at hr
    · exact .inr (Prod.mk.inj (Except.ok.inj hr)).1.symm
    · refine .inl ?_
      split at hr
      · obtain ⟨_, -, hr⟩ := bind_eq_ok.1 hr
        obtain ⟨_, -, hr⟩ := bind_eq_ok.1 hr
        exact status_of_bind hr
      · obtain ⟨_, -, hr⟩ := bind_eq_ok.1 hr
        exact status_of_bind hr
      · exact status_of_bind hr
      · exact (Prod.mk.inj (Except.ok.inj hr)).1.symm
  unfold MemoryDevice.read at h
  cases hcls : d.cls with
  | rom => rw [hcls] at h; exact hfall h
  | ram => rw [hcls] at h; exact hfall h
  | video => rw [hcls] at h; exact hfall h
  | clint =>
      rw [hcls] at h
      simp only [ClintMemoryDevice.read] at h
      split at h
      · exact .inr (Prod.mk.inj (Except.ok.inj h)).1.symm
      · refine .inl ?_
        split at h
        · exact status_of_bind h
        · exact status_of_bind h
        · exact status_of_bind h
        · exact (Prod.mk.inj (Except.ok.inj h)).1.symm

/-- What a write to RAM, VRAM and the CLINT answers. -/
private theorem sizedWrite_status {value status : U32} {mem' : d.Mem}
    (h : d.sizedWrite mem addr value size = .ok (status, mem')) :
    status = STATUS_OK ∨ status = STORE_ADDRESS_MISALIGNED ∧ mem' = mem := by
  unfold sizedWrite at h
  split at h
  · obtain ⟨h1, h2⟩ := Prod.mk.inj (Except.ok.inj h)
    exact .inr ⟨h1.symm, h2.symm⟩
  · refine .inl ?_
    split at h
    · exact status_of_bind h
    · exact status_of_bind h
    · exact status_of_bind h
    · exact (Prod.mk.inj (Except.ok.inj h)).1.symm

/-- What a write answers, whatever its size; unless it answers
`STATUS_OK` it changes no byte. -/
theorem write_status {value status : U32} {mem' : d.Mem}
    (h : d.write mem addr value size = .ok (status, mem')) :
    status = STATUS_OK
      ∨ (status = STORE_ADDRESS_MISALIGNED
        ∨ status = ILLEGAL_INSTRUCTION ∧ d.cls = .rom) ∧ mem' = mem := by
  unfold MemoryDevice.write at h
  have hsized : d.sizedWrite mem addr value size = .ok (status, mem') →
      status = STATUS_OK
        ∨ (status = STORE_ADDRESS_MISALIGNED
          ∨ status = ILLEGAL_INSTRUCTION ∧ d.cls = .rom) ∧ mem' = mem :=
    fun hw => (sizedWrite_status hw).imp_right fun hst => ⟨.inl hst.1, hst.2⟩
  cases hcls : d.cls with
  | rom =>
      rw [hcls] at h
      obtain ⟨h1, h2⟩ := Prod.mk.inj (Except.ok.inj h)
      exact .inr ⟨.inr ⟨h1.symm, rfl⟩, h2.symm⟩
  | ram => rw [hcls] at h hsized; exact hsized h
  | video => rw [hcls] at h hsized; exact hsized h
  | clint => rw [hcls] at h hsized; exact hsized h

/-- A write of no width changes no byte. -/
theorem write_size_zero {value status : U32} {mem' : d.Mem}
    (h : d.write mem addr value 0 = .ok (status, mem')) : mem' = mem := by
  unfold MemoryDevice.write at h
  cases hcls : d.cls with
  | rom => rw [hcls] at h; exact (Prod.mk.inj (Except.ok.inj h)).2.symm
  | ram => rw [hcls] at h; exact (Prod.mk.inj (Except.ok.inj h)).2.symm
  | video => rw [hcls] at h; exact (Prod.mk.inj (Except.ok.inj h)).2.symm
  | clint => rw [hcls] at h; exact (Prod.mk.inj (Except.ok.inj h)).2.symm

/-- A store changes no byte outside its range. -/
private theorem storeAt_frame {w : Nat} {value : U32} {mem' : d.Mem}
    {i : Fin d.deviceSize.toNat}
    (hi : ¬ (d.getAddress addr ≤ i ∧ i < d.getAddress addr + w))
    (h : d.storeAt mem addr value w = .ok mem') : mem' i = mem i := by
  by_cases hin : d.getAddress addr + w ≤ d.deviceSize.toNat
  · rw [storeAt_of_le hin, Except.ok.injEq] at h
    rw [← h]
    exact mem.poke_of_not_mem _ (by omega)
  · rw [storeAt_of_lt (by omega)] at h
    cases h

/-- A write changes no byte outside the range it names, whatever its
size. -/
theorem write_frame {value status : U32} {mem' : d.Mem}
    {i : Fin d.deviceSize.toNat}
    (hi : ¬ (d.getAddress addr ≤ i ∧ i < d.getAddress addr + size))
    (h : d.write mem addr value size = .ok (status, mem')) :
    mem' i = mem i := by
  have hsized : d.sizedWrite mem addr value size = .ok (status, mem') →
      mem' i = mem i := by
    intro hw
    unfold sizedWrite at hw
    split at hw
    · rw [(Prod.mk.inj (Except.ok.inj hw)).2]
    · split at hw
      · obtain ⟨m, hm, hw⟩ := bind_eq_ok.1 hw
        cases hw
        exact storeAt_frame hi hm
      · obtain ⟨m, hm, hw⟩ := bind_eq_ok.1 hw
        cases hw
        exact storeAt_frame hi hm
      · obtain ⟨m, hm, hw⟩ := bind_eq_ok.1 hw
        cases hw
        exact storeAt_frame hi hm
      · rw [(Prod.mk.inj (Except.ok.inj hw)).2]
  unfold MemoryDevice.write at h
  cases hcls : d.cls with
  | rom => rw [hcls] at h; rw [(Prod.mk.inj (Except.ok.inj h)).2]
  | ram => rw [hcls] at h; exact hsized h
  | video => rw [hcls] at h; exact hsized h
  | clint => rw [hcls] at h; exact hsized h

/-- A write that is carried out changes nothing exactly when the bytes of
the value are there already. -/
theorem write_eq_self_iff {value : U32} {mem' : d.Mem}
    (hsize : size = 0 ∨ IsAccessSize size)
    (h : d.write mem addr value size = .ok (STATUS_OK, mem')) :
    mem' = mem ↔ ∀ i : Fin d.deviceSize.toNat, d.getAddress addr ≤ i →
      i < d.getAddress addr + size →
      mem i = byteOf value (i - d.getAddress addr) := by
  rcases hsize with rfl | hsize
  · exact iff_of_true (write_size_zero h) fun i hlo hhi => by omega
  · have hcls : d.cls ≠ .rom := by
      intro hrom
      rw [write_rom hrom] at h
      exact absurd (Prod.mk.inj (Except.ok.inj h)).1 (by decide)
    by_cases hal : addr.toNat % size = 0
    · rw [write_eq hcls hsize hal] at h
      by_cases hin : d.getAddress addr + size ≤ d.deviceSize.toNat
      · rw [storeAt_of_le hin, ok_bind] at h
        rw [← (Prod.mk.inj (Except.ok.inj h)).2]
        have hbyte : ∀ i : Fin d.deviceSize.toNat, d.getAddress addr ≤ i →
            i < d.getAddress addr + size →
            mem.poke (d.getAddress addr) size (value.setWidth (8 * size)) i
              = byteOf value (i - d.getAddress addr) := by
          intro i hlo hhi
          rw [mem.poke_of_mem _ ⟨hlo, hhi⟩, byteOf_setWidth _ (by omega)]
        constructor
        · intro heq i hlo hhi
          rw [← hbyte i hlo hhi, heq]
        · intro hall
          funext i
          by_cases hi : d.getAddress addr ≤ i
              ∧ i < d.getAddress addr + size
          · rw [hbyte i hi.1 hi.2, hall i hi.1 hi.2]
          · exact mem.poke_of_not_mem _ (by omega)
      · rw [storeAt_of_lt (by omega)] at h
        cases h
    · rw [write_misaligned hcls hsize hal] at h
      exact absurd (Prod.mk.inj (Except.ok.inj h)).1 (by decide)

end MemoryDevice

end T89Emu
