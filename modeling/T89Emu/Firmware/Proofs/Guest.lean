/-
The accesses of the firmware, in the layout of its linker script.

At an aligned offset inside a device a word is loaded as the device has
it (`loadWord_place`), and a store that does not go to ROM replaces the
bytes there and nothing else (`store_place`).
-/
import T89Emu.Core.Proofs.Load
import T89Emu.Core.Proofs.Place
import T89Emu.Firmware.Guest
import T89Emu.Lib.Fill

namespace T89Emu

open Bytes Cpp

namespace Firmware

variable {s : Mcu .linker} {k : DeviceClass} {o : Nat}

/-- The bases are aligned. -/
theorem toNat_address_mod {size : Nat} (hsize : IsAccessSize size)
    (hin : o < (Layout.linker.device k).deviceSize.toNat)
    (hal : o % size = 0) :
    (Layout.linker.address k o).toNat % size = 0 := by
  have hbase : (Layout.linker.device k).baseAddress.toNat % 4 = 0 := by
    cases k <;> decide
  rw [(linker_place hin).1]
  rcases hsize with rfl | rfl | rfl
  · omega
  · omega
  · omega

/-- The next word. -/
theorem address_add_four (k : DeviceClass) (o : Nat) :
    Layout.linker.address k o + 4 = Layout.linker.address k (o + 4) := by
  unfold Layout.address
  rw [BitVec.add_assoc, BitVec.ofNat_add]
  rfl

/-- A word is the four bytes at its place. -/
theorem loadWord_place
    (hfit : o + 4 ≤ (Layout.linker.device k).deviceSize.toNat)
    (hal : o % 4 = 0) :
    loadWord s (Layout.linker.address k o)
      = .ok ((s.mem k).peek o 4 hfit) := by
  obtain ⟨-, hoff, hsel⟩ := linker_place (k := k) (o := o) (by omega)
  have hwidth : (Layout.linker.device k).readWidth WORD = 4 := by
    unfold MemoryDevice.readWidth
    split
    · rfl
    · rfl
  have hread : s.busRead (Layout.linker.address k o) WORD
      = .ok (STATUS_OK, some ((s.mem k).peek o 4 hfit)) := by
    rw [Mcu.busRead_eq_ok_iff isAccessSize_word
      (toNat_address_mod isAccessSize_word (by omega) hal)]
    refine ⟨k, hsel, by rw [hoff, hwidth]; exact hfit,
      eq_of_byteOf_eq (w := 4) fun j hj => ?_⟩
    rw [byteOf_setWidth (w := 4) _ hj,
      Buffer.byteOf_peek _ _ (by rw [hwidth]; exact hj),
      Buffer.byteOf_peek _ hfit hj]
    exact congrArg (s.mem k) (Fin.ext (congrArg (· + j) hoff))
  unfold loadWord
  rw [hread]
  exact if_pos rfl

/-- The same byte by byte. -/
theorem loadWord_bytes
    (hfit : o + 4 ≤ (Layout.linker.device k).deviceSize.toNat)
    (hal : o % 4 = 0) :
    ∃ word, loadWord s (Layout.linker.address k o) = .ok word
      ∧ ∀ j < 4, byteOf word j = (s.mem k).get (o + j) :=
  ⟨_, loadWord_place hfit hal, fun _ hj => Buffer.byteOf_peek_get _ _ hj⟩

-- ============================================================ the stores

/-- The machine with a window of a device filled. -/
def fillMem (s : Mcu .linker) (k : DeviceClass) (o len : Nat)
    (f : Nat → BitVec 8) : Mcu .linker :=
  { s with mem := Function.update s.mem k ((s.mem k).fill o len f) }

/-- The device has the window filled. -/
theorem fillMem_self (s : Mcu .linker) (k : DeviceClass) (o len : Nat)
    (f : Nat → BitVec 8) :
    (fillMem s k o len f).mem k = (s.mem k).fill o len f := by
  show Function.update s.mem k ((s.mem k).fill o len f) k = _
  exact Function.update_self ..

/-- The others are as they were. -/
theorem fillMem_other (s : Mcu .linker) (k : DeviceClass) (o len : Nat)
    (f : Nat → BitVec 8) {j : DeviceClass} (hj : j ≠ k) :
    (fillMem s k o len f).mem j = s.mem j :=
  Function.update_of_ne hj ..

/-- Nothing is filled by no bytes. -/
theorem fillMem_zero (s : Mcu .linker) (k : DeviceClass) (o : Nat)
    (f : Nat → BitVec 8) : fillMem s k o 0 f = s := by
  unfold fillMem
  rw [Buffer.fill_zero, Function.update_eq_self]

/-- Only the bytes of the window count. -/
theorem fillMem_congr (s : Mcu .linker) (k : DeviceClass) (o : Nat)
    {len : Nat} {f g : Nat → BitVec 8} (h : ∀ j < len, f j = g j) :
    fillMem s k o len f = fillMem s k o len g := by
  unfold fillMem
  rw [Buffer.fill_congr _ o h]

/-- Two windows that meet. -/
theorem fillMem_fillMem (s : Mcu .linker) (k : DeviceClass)
    (o len len' : Nat) (f : Nat → BitVec 8) :
    fillMem (fillMem s k o len f) k (o + len) len' (fun j => f (len + j))
      = fillMem s k o (len + len') f := by
  unfold fillMem
  dsimp only
  rw [Function.update_self, Function.update_idem, Buffer.fill_fill]

/-- An assignment fills the window of its bytes. -/
theorem store_place {size : Nat} (hsize : IsAccessSize size)
    (hrom : k ≠ .rom)
    (hfit : o + size ≤ (Layout.linker.device k).deviceSize.toNat)
    (hal : o % size = 0) (v : U32) :
    store s (Layout.linker.address k o) v size
      = .ok (fillMem s k o size (byteOf v)) := by
  have hpos := hsize.pos
  have hin : o < (Layout.linker.device k).deviceSize.toNat := by omega
  obtain ⟨-, hoff, hsel⟩ := linker_place hin
  have hpoke : (s.mem k).poke o size (v.setWidth (8 * size))
      = (s.mem k).fill o size (byteOf v) := by
    rw [Buffer.poke_eq_fill]
    exact Buffer.fill_congr _ o fun j hj => byteOf_setWidth v hj
  have hwrite : s.busWrite (Layout.linker.address k o) v size
      = .ok (STATUS_OK, Function.update s.mem k
          ((s.mem k).fill o size (byteOf v))) := by
    rw [← hpoke]
    unfold Mcu.busWrite
    rw [Bus.write_of_select hsel, MemoryDevice.write_eq
        (by rw [Layout.device_cls]; exact hrom) hsize
        (toNat_address_mod hsize hin hal),
      MemoryDevice.storeAt_of_le (by rw [hoff]; exact hfit), hoff]
    rfl
  unfold store
  rw [hwrite]
  exact if_pos rfl

end Firmware

end T89Emu
