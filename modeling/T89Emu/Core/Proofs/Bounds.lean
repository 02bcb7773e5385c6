/-
Accesses inside their buffers.

An access touches the bytes `Touched` of its device's array; an index
past the array is undefined behaviour, and an access runs into it in no
other way (`read_outOfBounds_iff`, `write_outOfBounds_iff`). So "no
access leaves its buffer" is the statement that `Bus.read` and
`Bus.write` never end in `outOfBounds`.

# Which accesses do leave it

Three checks would have to agree: the bus's range test, the alignment
test and the width that is dereferenced. The range test accepts the
address just past a device (`getEndAddress`), and a byte or halfword
read of ROM, RAM or VRAM dereferences a word. With 4-aligned bases and
sizes every other access stays inside, so `access_in_bounds_iff` is
exact.
-/
import T89Emu.Core.Mcu
import T89Emu.Memory.Proofs.Routing

namespace T89Emu

open Bytes Cpp

namespace MemoryDevice

variable {d : MemoryDevice} {mem : d.Mem} {addr : U32}

/-- The indices of the byte array that a `w`-byte dereference of
`getAddress(addr)` touches. -/
def Touched (d : MemoryDevice) (addr : U32) (w i : Nat) : Prop :=
  d.getAddress addr ≤ i ∧ i < d.getAddress addr + w

/-- A dereference of at least one byte touches an index past the array
exactly when it ends past it. -/
theorem touches_past_iff {w : Nat} (hw : 0 < w) :
    (∃ i, d.Touched addr w i ∧ d.deviceSize.toNat ≤ i)
      ↔ d.deviceSize.toNat < d.getAddress addr + w := by
  unfold Touched
  constructor
  · rintro ⟨i, hi, hn⟩
    omega
  · intro h
    exact ⟨d.getAddress addr + w - 1, by omega, by omega⟩

/-- A read is undefined exactly when it gets past the alignment test and
touches an index past the array. -/
theorem read_outOfBounds_iff {size : Nat} (hsize : IsAccessSize size) :
    d.read mem addr size = .error .outOfBounds
      ↔ addr.toNat % size = 0
        ∧ ∃ i, d.Touched addr (d.readWidth size) i
          ∧ d.deviceSize.toNat ≤ i := by
  have hpos := Nat.lt_of_lt_of_le hsize.pos (le_readWidth (d := d) hsize)
  rw [touches_past_iff hpos]
  by_cases hal : addr.toNat % size = 0
  · rw [read_eq hsize hal, and_iff_right hal]
    by_cases h : d.getAddress addr + d.readWidth size ≤ d.deviceSize.toNat
    · rw [loadAt_of_le h]
      exact iff_of_false nofun (by omega)
    · rw [loadAt_of_lt (by omega)]
      exact iff_of_true rfl (by omega)
  · rw [read_misaligned hsize hal]
    exact iff_of_false nofun fun h => hal h.1

/-- The same of a write, to the classes that take one. -/
theorem write_outOfBounds_iff {value : U32} {size : Nat}
    (hsize : IsAccessSize size) :
    d.write mem addr value size = .error .outOfBounds
      ↔ d.cls ≠ .rom ∧ addr.toNat % size = 0
        ∧ ∃ i, d.Touched addr size i ∧ d.deviceSize.toNat ≤ i := by
  rw [touches_past_iff hsize.pos]
  by_cases hcls : d.cls = .rom
  · rw [write_rom hcls]
    exact iff_of_false nofun fun h => h.1 hcls
  · rw [and_iff_right hcls]
    by_cases hal : addr.toNat % size = 0
    · rw [write_eq hcls hsize hal, and_iff_right hal]
      by_cases h : d.getAddress addr + size ≤ d.deviceSize.toNat
      · rw [storeAt_of_le h]
        exact iff_of_false nofun (by omega)
      · rw [storeAt_of_lt (by omega)]
        exact iff_of_true rfl (by omega)
    · rw [write_misaligned hcls hsize hal]
      exact iff_of_false nofun fun h => hal h.1

/-- An address that the range test accepts is inside the array or just
past it. -/
theorem getAddress_of_hits (h : Bus.Hits d addr) :
    d.getAddress addr ≤ d.deviceSize.toNat
      ∧ (d.getAddress addr = d.deviceSize.toNat
        ↔ addr = d.getEndAddress) := by
  obtain ⟨hlo, hhi⟩ := h
  have hsub : d.getAddress addr
      = (2 ^ 32 - d.baseAddress.toNat + addr.toNat) % 2 ^ 32 :=
    BitVec.toNat_sub ..
  have hend : d.getEndAddress.toNat
      = (d.baseAddress.toNat + d.deviceSize.toNat) % 2 ^ 32 :=
    BitVec.toNat_add ..
  have haddr := addr.isLt
  have hbase := d.baseAddress.isLt
  have hsz := d.deviceSize.isLt
  rw [ge_iff_le, BitVec.le_def] at hlo
  rw [BitVec.le_def] at hhi
  rw [← BitVec.toNat_inj, hsub, hend]
  omega

/-- In a device at a 4-aligned base, offsets are as aligned as
addresses. -/
theorem getAddress_mod {size : Nat} (hbase : d.baseAddress.toNat % 4 = 0)
    (hsize : IsAccessSize size) :
    d.getAddress addr % size = addr.toNat % size := by
  have hsub : d.getAddress addr
      = (2 ^ 32 - d.baseAddress.toNat + addr.toNat) % 2 ^ 32 :=
    BitVec.toNat_sub ..
  have haddr := addr.isLt
  have hlt := d.baseAddress.isLt
  rw [hsub]
  rcases hsize with rfl | rfl | rfl
  · omega
  · omega
  · omega

end MemoryDevice

-- ===================================================== the conditions

/-- The ROM and RAM bases of the ELF file are 4-aligned. -/
structure Layout.Aligned (L : Layout) : Prop where
  rom : L.romBase.toNat % 4 = 0
  ram : L.ramBase.toNat % 4 = 0

/-- A read that passes the alignment test is not at the end address of
the device that takes it; and it is of the CLINT, or of a word, or
starts at least a word before that end. -/
def Mcu.ReadsInside (L : Layout) (addr : U32) (size : Nat) : Prop :=
  ∀ k, Mcu.bus.select L.device addr = some k → addr.toNat % size = 0 →
    addr ≠ (L.device k).getEndAddress
      ∧ (k = .clint ∨ size = 4
        ∨ (L.device k).getAddress addr + 4 ≤ (L.device k).deviceSize.toNat)

/-- A write that passes the alignment test is not at the end address of
the device that takes it, unless that is ROM. -/
def Mcu.WritesInside (L : Layout) (addr : U32) (size : Nat) : Prop :=
  ∀ k, Mcu.bus.select L.device addr = some k → addr.toNat % size = 0 →
    k = .rom ∨ addr ≠ (L.device k).getEndAddress

namespace Mcu

variable {L : Layout} {addr : U32} {size : Nat}

theorem device_base_mod (hL : L.Aligned) (k : DeviceClass) :
    (L.device k).baseAddress.toNat % 4 = 0 := by
  cases k with
  | rom => exact hL.rom
  | ram => exact hL.ram
  | video => exact (by decide : VIDEO_BASE.toNat % 4 = 0)
  | clint => exact (by decide : CLINT_BASE.toNat % 4 = 0)

theorem device_size_mod (k : DeviceClass) :
    (L.device k).deviceSize.toNat % 4 = 0 := by
  cases k with
  | rom => exact (by decide : ROM_SIZE.toNat % 4 = 0)
  | ram => exact (by decide : RAM_SIZE.toNat % 4 = 0)
  | video => exact (by decide : VIDEO_SIZE.toNat % 4 = 0)
  | clint => exact (by decide : CLINT_SIZE.toNat % 4 = 0)

/-- An aligned access of its own width stays inside the device that takes
it exactly when it is not at the end address. -/
theorem inside_iff (hL : L.Aligned) {k : DeviceClass}
    (hsel : Mcu.bus.select L.device addr = some k)
    (hsize : IsAccessSize size) (hal : addr.toNat % size = 0) :
    (L.device k).getAddress addr + size ≤ (L.device k).deviceSize.toNat
      ↔ addr ≠ (L.device k).getEndAddress := by
  have hhits := (FirstMatch.search_eq_some hsel).2
  obtain ⟨hle, hend⟩ := MemoryDevice.getAddress_of_hits hhits
  have hoff : (L.device k).getAddress addr % size = addr.toNat % size :=
    MemoryDevice.getAddress_mod (device_base_mod hL k) hsize
  have hn := device_size_mod (L := L) k
  rw [hal] at hoff
  rw [ne_eq, ← hend]
  rcases hsize with rfl | rfl | rfl
  · omega
  · omega
  · omega

/-- Reads: only the end address and the width dereferenced matter. -/
theorem read_in_bounds_iff (hL : L.Aligned) (heap : Heap L.device)
    (hsize : IsAccessSize size) :
    Mcu.bus.read L.device heap addr size ≠ .error .outOfBounds
      ↔ ReadsInside L addr size := by
  unfold ReadsInside
  cases hsel : Mcu.bus.select L.device addr with
  | none =>
      rw [Bus.read_of_select_none hsel]
      exact iff_of_true nofun nofun
  | some k =>
      have hle : size ≤ (L.device k).readWidth size :=
        MemoryDevice.le_readWidth hsize
      rw [Bus.read_of_select hsel, ne_eq,
        MemoryDevice.read_outOfBounds_iff hsize,
        MemoryDevice.touches_past_iff (Nat.lt_of_lt_of_le hsize.pos hle)]
      simp only [Option.some.injEq, forall_eq']
      unfold MemoryDevice.readWidth at hle ⊢
      rw [L.device_cls] at hle ⊢
      constructor
      · intro h hal
        have hin := inside_iff hL hsel hsize hal
        by_cases hk : k = .clint
        · rw [if_pos hk] at h
          exact ⟨hin.1 (by omega), .inl hk⟩
        · rw [if_neg hk] at h hle
          exact ⟨hin.1 (by omega), .inr (.inr (by omega))⟩
      · rintro h ⟨hal, hout⟩
        obtain ⟨hend, hwide⟩ := h hal
        have hin := (inside_iff hL hsel hsize hal).2 hend
        split at hout
        · omega
        · next hk =>
          have := hwide.resolve_left hk
          omega

/-- Writes: only the end address matters, and not to ROM. -/
theorem write_in_bounds_iff (hL : L.Aligned) (heap : Heap L.device)
    (data : U32) (hsize : IsAccessSize size) :
    Mcu.bus.write L.device heap addr data size ≠ .error .outOfBounds
      ↔ WritesInside L addr size := by
  unfold WritesInside
  cases hsel : Mcu.bus.select L.device addr with
  | none =>
      rw [Bus.write_of_select_none hsel]
      exact iff_of_true nofun nofun
  | some k =>
      rw [Bus.write_of_select hsel, ne_eq, bind_ok_eq_error,
        MemoryDevice.write_outOfBounds_iff hsize,
        MemoryDevice.touches_past_iff hsize.pos, L.device_cls]
      simp only [Option.some.injEq, forall_eq']
      constructor
      · intro h hal
        by_cases hk : k = .rom
        · exact .inl hk
        · refine .inr ((inside_iff hL hsel hsize hal).1 ?_)
          by_contra hout
          exact h ⟨hk, hal, by omega⟩
      · rintro h ⟨hk, hal, hout⟩
        have hend := (h hal).resolve_left hk
        have := (inside_iff hL hsel hsize hal).2 hend
        omega

-- ================================================= the linker's layout

/-- The linker script keeps the devices apart. -/
theorem linker_wellFormed : Mcu.bus.WellFormed Layout.linker.device := by
  refine ⟨by decide, List.Pairwise.imp (fun h =>
    MemoryDevice.disjointFrom_of_apart h) ?_⟩
  decide

/-- No device of it ends at an address of another, or at the top of
memory. -/
private theorem linker_apart : ∀ i ∈ Mcu.bus, ∀ j ∈ Mcu.bus,
    ((Layout.linker.device j).limit
        < (Layout.linker.device i).baseAddress.toNat
      ∨ (Layout.linker.device i).limit ≤ (Layout.linker.device j).limit)
    ∧ (Layout.linker.device j).limit ≠ 2 ^ 32 := by
  decide

/-- So the bus finds the owner of every address. -/
theorem linker_select_of_owns {k : DeviceClass}
    (howns : (Layout.linker.device k).Owns addr) :
    Mcu.bus.select Layout.linker.device addr = some k := by
  have hk : k ∈ Mcu.bus := by
    cases k with
    | rom => decide
    | ram => decide
    | video => decide
    | clint => decide
  have hagree : ∀ j ∈ Mcu.bus, (Bus.Hits (Layout.linker.device j) addr
      ↔ (Layout.linker.device j).Owns addr) := by
    intro j hj
    obtain ⟨hapart, htop⟩ := linker_apart k hk j hj
    obtain ⟨hlo, hhi⟩ := howns
    refine (MemoryDevice.hits_iff_owns_iff
      (linker_wellFormed.fits j hj)).2 ⟨?_, fun _ => htop⟩
    omega
  have hexact := (FirstMatch.exact_perm_iff
    (linker_wellFormed.unique addr)).2 hagree _ (.refl _)
  exact hexact.1 k hk howns

-- ============================================================== the result

/-- With 4-aligned ROM and RAM, a read or write of size 1, 2 or 4 leaves
no buffer exactly when it avoids the end address and, if a byte or
halfword read of ROM, RAM or VRAM, the last three bytes. -/
theorem access_in_bounds_iff (L : Layout) (hL : L.Aligned)
    (heap : Heap L.device) (addr data : U32) (size : Nat)
    (hsize : IsAccessSize size) :
    (Mcu.bus.read L.device heap addr size ≠ .error .outOfBounds
      ↔ ReadsInside L addr size)
    ∧ (Mcu.bus.write L.device heap addr data size ≠ .error .outOfBounds
      ↔ WritesInside L addr size) :=
  ⟨read_in_bounds_iff hL heap hsize, write_in_bounds_iff hL heap data hsize⟩

/-- The word just past RAM, in a layout as the linker script makes it:
RAM takes the read and the write, and both leave its array. -/
theorem end_of_ram_out_of_bounds :
    let L : Layout := ⟨0x80000000, 0x40000000⟩
    let heap : Heap L.device := fun k => (L.device k).zeroed
    L.Aligned ∧ Mcu.bus.WellFormed L.device
      ∧ Mcu.bus.select L.device 0x40100000 = some .ram
      ∧ Mcu.bus.read L.device heap 0x40100000 4 = .error .outOfBounds
      ∧ Mcu.bus.write L.device heap 0x40100000 1 4
        = .error .outOfBounds := by
  intro L heap
  have hsel : Mcu.bus.select L.device 0x40100000 = some .ram := by decide
  refine ⟨⟨by decide, by decide⟩, linker_wellFormed, hsel, ?_, ?_⟩
  · rw [Bus.read_of_select hsel,
      MemoryDevice.read_eq isAccessSize_word (by decide),
      MemoryDevice.loadAt_of_lt (by decide), error_bind]
  · rw [Bus.write_of_select hsel,
      MemoryDevice.write_eq (by decide) isAccessSize_word (by decide),
      MemoryDevice.storeAt_of_lt (by decide), error_bind, error_bind]

/-- The last word of RAM is inside. -/
theorem last_word_in_bounds :
    let L : Layout := ⟨0x80000000, 0x40000000⟩
    let heap : Heap L.device := fun k => (L.device k).zeroed
    Mcu.bus.read L.device heap 0x400ffffc 4 ≠ .error .outOfBounds := by
  intro L heap
  refine (access_in_bounds_iff L ⟨by decide, by decide⟩ heap 0x400ffffc 0 4
    isAccessSize_word).1.2 fun k hk _ => ?_
  have hsel : Mcu.bus.select L.device 0x400ffffc = some .ram := by decide
  rw [hsel, Option.some.injEq] at hk
  subst hk
  exact ⟨by decide, .inr (.inl rfl)⟩

end Mcu

end T89Emu
