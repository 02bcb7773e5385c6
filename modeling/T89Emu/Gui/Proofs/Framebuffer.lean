/-
The guest's framebuffer and the renderer's.

The guest addresses pixel `i` as a word in the pixel buffer
(`pixelAddr`), the renderer reads it as four bytes of the device's array
(`texel`). Both compute the same place. What does not fit is the size:
the device has one byte for each pixel where there are four, so only
the first quarter of the screen is inside the array (`pixel_stored_iff`)
and the image handed to the graphics library never is.
-/
import T89Emu.Core.Proofs.Bounds
import T89Emu.Gui.LcdDisplay

namespace T89Emu

open Bytes Cpp

namespace Gui

-- ================================================ statement vocabulary

/-- The address of pixel `i`, as the guest computes it. -/
def pixelAddr (i : Nat) : U32 :=
  VIDEO_BASE + 16 + TEXT_WIDTH * TEXT_HEIGHT + 4 * BitVec.ofNat 32 i

/-- How many pixels the screen has. -/
def pixels : Nat := SCREEN_WIDTH.toNat * SCREEN_HEIGHT.toNat

/-- Between the two arrays, the renderer's view of pixel `i` has become
`v`, and of everything else has not changed. -/
structure ShowsPixel (vram vram' : Vram) (i : Nat) (v : U32) : Prop where
  pixel : ∀ c < 4, texel vram' i c = .ok (byteOf v c)
  others : ∀ j, j ≠ i → ∀ c < 4, texel vram' j c = texel vram j c
  text : ∀ line col, line < TEXT_HEIGHT.toNat → col < TEXT_WIDTH.toNat →
    lineStr vram' line col = lineStr vram line col
  mode : videoMode vram' = videoMode vram

/-- A guest store of the colour `v` to pixel `i` succeeds and is what the
renderer shows. -/
def StoresPixel (L : Layout) (heap : Heap L.device) (i : Nat) (v : U32) :
    Prop :=
  ∃ heap', Mcu.bus.write L.device heap (pixelAddr i) v WORD
      = .ok (STATUS_OK, heap')
    ∧ ShowsPixel (vramProbe heap) (vramProbe heap') i v

-- =========================================================== the addresses

variable {vram : Vram} {i : Nat} {v : U32}

/-- A pixel's address does not wrap. -/
theorem toNat_pixelAddr (hi : i < pixels) :
    (pixelAddr i).toNat = VIDEO_BASE.toNat + vramBuffer + 4 * i := by
  have hpix : pixels = 147456 := by decide
  have hbase : (VIDEO_BASE + 16 + TEXT_WIDTH * TEXT_HEIGHT).toNat
      = VIDEO_BASE.toNat + vramBuffer := by decide
  have hnum : VIDEO_BASE.toNat + vramBuffer = 536872272 := by decide
  have hofs : (4 * BitVec.ofNat 32 i).toNat = 4 * i := by
    rw [BitVec.toNat_mul, BitVec.toNat_ofNat]
    show 4 * (i % 2 ^ 32) % 2 ^ 32 = 4 * i
    omega
  unfold pixelAddr
  rw [BitVec.toNat_add, hbase, hofs]
  omega

/-- The first quarter of the pixels is what fits into the device. -/
theorem fits_iff : vramBuffer + (4 * i + 3) < VIDEO_SIZE.toNat
    ↔ 4 * i < pixels := by
  have hpix : pixels = 147456 := by decide
  have hbuf : vramBuffer = 1360 := by decide
  have hsize : VIDEO_SIZE.toNat = 148816 := by decide
  omega

-- ============================================================ the renderer

theorem byteAt_of_lt {j : Nat} (h : j < VIDEO_SIZE.toNat) :
    byteAt vram j = .ok (vram ⟨j, h⟩) := dif_pos h

theorem byteAt_of_le {j : Nat} (h : VIDEO_SIZE.toNat ≤ j) :
    byteAt vram j = .error .outOfBounds := dif_neg (by omega)

/-- Bytes outside the range written look the same. -/
theorem byteAt_poke_of_not_mem {o w j : Nat} {b : BitVec (8 * w)}
    (h : j < o ∨ o + w ≤ j) :
    byteAt (vram.poke o w b) j = byteAt vram j := by
  unfold byteAt
  split
  · exact congrArg Except.ok (vram.poke_of_not_mem b h)
  · rfl

/-- Writing the four bytes of a pixel inside the array changes the
renderer's view of that pixel and of nothing else. -/
theorem showsPixel_poke (hin : vramBuffer + (4 * i + 3) < VIDEO_SIZE.toNat) :
    ShowsPixel vram
      (vram.poke (vramBuffer + 4 * i) WORD (v.setWidth (8 * WORD))) i v where
  pixel c hc := by
    unfold texel
    rw [byteAt_of_lt (by omega), vram.poke_of_mem _
      (by simp only [WORD]; omega), byteOf_setWidth _
      (by simp only [WORD]; omega)]
    congr 2
    simp only
    omega
  others j hj c hc :=
    byteAt_poke_of_not_mem (by simp only [WORD]; omega)
  text line col hline hcol := by
    have hcells : 16 + TEXT_WIDTH.toNat * line + col < vramBuffer := by
      have hbuf : vramBuffer = 1360 := by decide
      have hw : TEXT_WIDTH.toNat = 64 := by decide
      have hh : TEXT_HEIGHT.toNat = 21 := by decide
      rw [hw] at hcol ⊢
      omega
    unfold lineStr
    rw [byteAt_poke_of_not_mem (.inl (by omega))]
  mode := by
    unfold videoMode
    rw [vram.poke_of_not_mem _ (.inl (Nat.lt_of_lt_of_le
      (by decide : 0 < vramBuffer) (Nat.le_add_right ..)))]

-- ============================================================== the result

/-- The bus hands a store to a pixel inside the array to the VRAM. -/
theorem select_pixel {L : Layout} (hwf : Mcu.bus.WellFormed L.device)
    (hi : 4 * i < pixels) :
    Mcu.bus.select L.device (pixelAddr i) = some .video := by
  have haddr := toNat_pixelAddr (i := i) (by omega)
  have hin := fits_iff.2 hi
  have hbase : VIDEO_BASE.toNat = 536870912 := by decide
  have hbuf : vramBuffer = 1360 := by decide
  have hsize : VIDEO_SIZE.toNat = 148816 := by decide
  have howns : (L.device .video).Owns (pixelAddr i) := by
    show VIDEO_BASE.toNat ≤ (pixelAddr i).toNat
      ∧ (pixelAddr i).toNat < VIDEO_BASE.toNat + VIDEO_SIZE.toNat
    omega
  have hpast : VIDEO_BASE.toNat < (pixelAddr i).toNat := by omega
  have htop : VIDEO_BASE.toNat + VIDEO_SIZE.toNat ≠ 2 ^ 32 := by omega
  refine hwf.select_of_interior (by decide) howns hpast htop fun k _ => ?_
  cases k with
  | rom => exact (by decide : 0 < ROM_SIZE.toNat)
  | ram => exact (by decide : 0 < RAM_SIZE.toNat)
  | video => exact (by decide : 0 < VIDEO_SIZE.toNat)
  | clint => exact (by decide : 0 < CLINT_SIZE.toNat)

/-- A guest store to a pixel of the screen reaches the renderer exactly
when the pixel is in the first quarter of the screen. -/
theorem pixel_stored_iff (L : Layout) (hwf : Mcu.bus.WellFormed L.device)
    (heap : Heap L.device) (i : Nat) (hi : i < pixels) (v : U32) :
    StoresPixel L heap i v ↔ 4 * i < pixels := by
  have haddr := toNat_pixelAddr hi
  constructor
  · rintro ⟨heap', -, hshow⟩
    -- the last channel of the pixel was read from inside the array
    by_contra hout
    have hpast : VIDEO_SIZE.toNat ≤ vramBuffer + (4 * i + 3) :=
      Nat.le_of_not_lt fun h => hout (fits_iff.1 h)
    have hbyte := hshow.pixel 3 (by decide)
    unfold texel at hbyte
    rw [byteAt_of_le hpast] at hbyte
    cases hbyte
  · intro hquarter
    have hin := fits_iff.2 hquarter
    have hofs : (L.device .video).getAddress (pixelAddr i)
        = vramBuffer + 4 * i := by
      have hlt := (pixelAddr i).isLt
      show (pixelAddr i - VIDEO_BASE).toNat = _
      rw [BitVec.toNat_sub, haddr]
      omega
    have hal : (pixelAddr i).toNat % WORD = 0 := by
      have hnum : (VIDEO_BASE.toNat + vramBuffer) % 4 = 0 := by decide
      rw [haddr]
      simp only [WORD]
      omega
    have hfits : (L.device .video).getAddress (pixelAddr i) + WORD
        ≤ (L.device .video).deviceSize.toNat := by
      rw [hofs]
      show vramBuffer + 4 * i + 4 ≤ VIDEO_SIZE.toNat
      omega
    have hcls : (L.device .video).cls ≠ .rom := by
      rw [L.device_cls]
      decide
    have hwrite : (L.device .video).write (heap .video) (pixelAddr i) v WORD
        = _ := MemoryDevice.write_eq hcls isAccessSize_word hal
    rw [MemoryDevice.storeAt_of_le hfits, hofs, ok_bind] at hwrite
    let vram' : Vram := (vramProbe heap).poke (vramBuffer + 4 * i) WORD
      (v.setWidth (8 * WORD))
    refine ⟨Function.update heap .video vram', ?_, ?_⟩
    · rw [Bus.write_of_select (select_pixel hwf hquarter), hwrite]
      rfl
    · have hself : vramProbe (Function.update heap .video vram') = vram' :=
        Function.update_self ..
      rw [hself]
      exact showsPixel_poke hin

/-- The store to the last pixel of the screen, in the linker script's
layout: no device is there. -/
theorem last_pixel_faults :
    let heap : Heap Layout.linker.device := fun k =>
      (Layout.linker.device k).zeroed
    147455 < pixels
      ∧ Mcu.bus.write Layout.linker.device heap (pixelAddr 147455) 0xffffffff
        WORD = .ok (STORE_ACCESS_FAULT, heap)
      ∧ ¬ StoresPixel .linker heap 147455 0xffffffff := by
  intro heap
  have hsel : Mcu.bus.select Layout.linker.device (pixelAddr 147455) = none :=
    by decide
  have hwrite : Mcu.bus.write Layout.linker.device heap (pixelAddr 147455)
      0xffffffff WORD = .ok (STORE_ACCESS_FAULT, heap) :=
    Bus.write_of_select_none hsel
  refine ⟨by decide, hwrite, ?_⟩
  rintro ⟨heap', hok, -⟩
  rw [hwrite] at hok
  exact absurd (Prod.mk.inj (Except.ok.inj hok)).1 (by decide)

/-- A pixel near the top is stored and shown. -/
theorem early_pixel_stored :
    StoresPixel .linker (fun k => (Layout.linker.device k).zeroed) 1000
      0xff0080ff :=
  (pixel_stored_iff .linker Mcu.linker_wellFormed _ 1000 (by decide)
    0xff0080ff).2 (by decide)

/-- Whatever the array holds, the image the renderer hands over runs past
its end. -/
theorem image_leaves_buffer (vram : Vram) :
    ∃ i < pixels, texel vram i 3 = .error .outOfBounds := by
  refine ⟨147455, by decide, byteAt_of_le ?_⟩
  decide

/-- In text mode nothing does. -/
theorem text_inside (vram : Vram) {line col : Nat}
    (hline : line < TEXT_HEIGHT.toNat) (hcol : col < TEXT_WIDTH.toNat) :
    ∃ c, lineStr vram line col = .ok c := by
  have hw : TEXT_WIDTH.toNat = 64 := by decide
  have hh : TEXT_HEIGHT.toNat = 21 := by decide
  have hsize : VIDEO_SIZE.toNat = 148816 := by decide
  have hin : 16 + TEXT_WIDTH.toNat * line + col < VIDEO_SIZE.toNat := by
    rw [hw] at hcol ⊢
    omega
  unfold lineStr
  rw [byteAt_of_lt hin]
  exact ⟨_, rfl⟩

end Gui

end T89Emu
