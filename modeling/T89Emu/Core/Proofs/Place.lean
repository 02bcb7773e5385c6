/-
Places in the layout of the linker script.

The devices of this layout neither overlap nor touch, so an offset in one
of them is an address that the bus dispatches to it, at that offset
(`linker_place`). The words of a program are such places
(`program_wordAt`).
-/
import T89Emu.Core.Proofs.Transparent

namespace T89Emu

open Bytes Cpp

/-- The address of an offset in a device. -/
def Layout.address (L : Layout) (k : DeviceClass) (o : Nat) : U32 :=
  (L.device k).baseAddress + BitVec.ofNat 32 o

/-- It is where the bus looks for the offset. -/
theorem linker_place {k : DeviceClass} {o : Nat}
    (h : o < (Layout.linker.device k).deviceSize.toNat) :
    (Layout.linker.address k o).toNat
        = (Layout.linker.device k).baseAddress.toNat + o
      ∧ (Layout.linker.device k).getAddress (Layout.linker.address k o) = o
      ∧ Mcu.bus.select Layout.linker.device (Layout.linker.address k o)
        = some k := by
  have hfit : (Layout.linker.device k).limit ≤ 2 ^ 32 :=
    Mcu.linker_wellFormed.fits k (by cases k <;> decide)
  unfold MemoryDevice.limit at hfit
  have haddr : (Layout.linker.address k o).toNat
      = (Layout.linker.device k).baseAddress.toNat + o := by
    unfold Layout.address
    rw [BitVec.toNat_add, BitVec.toNat_ofNat]
    omega
  refine ⟨haddr, ?_, Mcu.linker_select_of_owns ?_⟩
  · unfold MemoryDevice.getAddress
    rw [BitVec.toNat_sub, haddr]
    have hbase := (Layout.linker.device k).baseAddress.isLt
    omega
  · unfold MemoryDevice.Owns MemoryDevice.limit
    rw [haddr]
    omega

namespace Mcu

/-- The words of a program lie in ROM. -/
theorem program_wordAt {words : List U32} {i : Nat} {w : U32}
    (h : words[i]? = some w) (hi : 4 * i + 4 ≤ ROM_SIZE.toNat) :
    (program words).WordAt (Layout.linker.address .rom (4 * i)) w := by
  obtain ⟨haddr, hoff, hsel⟩ := linker_place (k := .rom) (o := 4 * i)
    (show 4 * i < ROM_SIZE.toNat by omega)
  have hal : (Layout.linker.address .rom (4 * i)).toNat % 4 = 0 := by
    rw [haddr]
    show (0x80000000 + 4 * i) % 4 = 0
    omega
  have hfit : (Layout.linker.device .rom).getAddress
      (Layout.linker.address .rom (4 * i)) + 4
        ≤ (Layout.linker.device .rom).deviceSize.toNat := by
    rw [hoff]
    exact hi
  refine ⟨.rom, .inl rfl, hsel, hal, hfit,
    eq_of_byteOf_eq (w := 4) fun j hj => ?_⟩
  have hbyte : ∀ o, o = 4 * i + j →
      byteOf (words.getD (o / 4) 0) (o % 4) = byteOf w j := by
    rintro o rfl
    rw [show (4 * i + j) / 4 = i by omega,
      show (4 * i + j) % 4 = j by omega, List.getD_eq_getElem?_getD, h]
    rfl
  rw [byteOf_setWidth (w := 4) _ hj, Buffer.byteOf_peek _ hfit hj]
  exact hbyte _ (congrArg (· + j) hoff)

end Mcu

end T89Emu
