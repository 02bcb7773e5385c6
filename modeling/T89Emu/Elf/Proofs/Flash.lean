/-
What flashing leaves in ROM.

`flashRom` copies two segments through one pointer that moves on through
the device's buffer, so they come to lie one behind the other
(`flashRom_run`). The start-up code of the firmware relies on this: it
copies its data from where the program ends (`LaidOut.image`).

The loops write as many bytes as the segments have. There is no other
bound, and the buffer ends with the device.
-/
import T89Emu.Elf.Proofs.Segments

namespace T89Emu

open Bytes Cpp Elf ElfParser

variable {n : Nat}

-- ================================================ statement vocabulary

/-- Byte `i` of a buffer, if it has one. -/
def byteOfBuffer (buf : Buffer n) (i : Nat) : Option U8 :=
  if h : i < n then some (buf ⟨i, h⟩) else none

/-- ROM holds the one segment and behind it the other one, which is where
the firmware looks for it, and zeros behind both. -/
structure LaidOut (L : Layout) (firmware : (L.device .rom).Mem)
    (rom ram : List U8) : Prop where
  program : ∀ i < rom.length, byteOfBuffer firmware i = rom[i]?
  data : ∀ i < ram.length,
    byteOfBuffer firmware (rom.length + i) = ram[i]?
  image : ∀ programEnd : U32,
    programEnd = L.romBase + BitVec.ofNat 32 rom.length →
    ∀ i < ram.length, byteOfBuffer firmware
      ((L.device .rom).getAddress (programEnd + BitVec.ofNat 32 i))
        = ram[i]?
  rest : ∀ i, rom.length + ram.length ≤ i → i < ROM_SIZE.toNat →
    byteOfBuffer firmware i = some 0

/-- A fresh ROM is flashed with the two segments, byte by byte, and no
byte outside of it is written. -/
def Flashed (L : Layout) (s : ElfParser) (rom ram : List U8) : Prop :=
  ∃ firmware, s.flashRom (L.device .rom).zeroed = .ok firmware
    ∧ LaidOut L firmware rom ram

-- ============================================================= the layout

/-- What an overlay of a fresh ROM holds. -/
theorem byteOfBuffer_overlay {L : Layout} {bytes : List U8} {i : Nat}
    (hfits : bytes.length ≤ ROM_SIZE.toNat) :
    byteOfBuffer (Buffer.overlay (L.device .rom).zeroed 0 bytes) i
      = if i < bytes.length then bytes[i]?
        else if i < ROM_SIZE.toNat then some 0 else none := by
  have hsize : (L.device .rom).deviceSize.toNat = ROM_SIZE.toNat := rfl
  unfold byteOfBuffer
  by_cases hi : i < (L.device .rom).deviceSize.toNat
  · rw [dif_pos hi, Buffer.overlay, if_pos (Nat.zero_le _), Nat.sub_zero]
    by_cases hlt : i < bytes.length
    · rw [if_pos hlt, List.getElem?_eq_getElem hlt,
        List.getD_eq_getElem _ _ hlt]
    · rw [if_neg hlt, if_pos (hsize ▸ hi),
        List.getD_eq_default _ _ (Nat.not_lt.1 hlt)]
      rfl
  · rw [dif_neg hi, if_neg (by omega), if_neg (hsize ▸ hi)]

theorem laidOut_overlay (L : Layout) {rom ram : List U8}
    (hfits : rom.length + ram.length ≤ ROM_SIZE.toNat) :
    LaidOut L (Buffer.overlay (L.device .rom).zeroed 0 (rom ++ ram))
      rom ram := by
  have hlen : (rom ++ ram).length = rom.length + ram.length :=
    List.length_append
  have hdata : ∀ i < ram.length, byteOfBuffer
      (Buffer.overlay (L.device .rom).zeroed 0 (rom ++ ram))
      (rom.length + i) = ram[i]? := by
    intro i hi
    rw [byteOfBuffer_overlay (by omega), if_pos (by omega),
      List.getElem?_append_right (Nat.le_add_right ..),
      Nat.add_sub_cancel_left]
  constructor
  case program =>
    intro i hi
    rw [byteOfBuffer_overlay (by omega), if_pos (by omega),
      List.getElem?_append_left hi]
  case data => exact hdata
  case image =>
    rintro programEnd rfl i hi
    have hsize : ROM_SIZE.toNat < 2 ^ 32 := ROM_SIZE.isLt
    have haddr : (L.device .rom).getAddress
        (L.romBase + BitVec.ofNat 32 rom.length + BitVec.ofNat 32 i)
        = rom.length + i := by
      show (L.romBase + BitVec.ofNat 32 rom.length + BitVec.ofNat 32 i
        - L.romBase).toNat = _
      rw [BitVec.add_assoc, BitVec.add_comm L.romBase,
        BitVec.add_sub_cancel, ← BitVec.ofNat_add,
        BitVec.toNat_ofNat, Nat.mod_eq_of_lt (by omega)]
    rw [haddr]
    exact hdata i hi
  case rest =>
    intro i hlow hhigh
    rw [byteOfBuffer_overlay (by omega), if_neg (by omega), if_pos hhigh]

/-- ROM is flashed exactly when the segments together fit into it. -/
theorem flashed_iff (L : Layout) (s : ElfParser)
    (p q romOffset f ramOffset d : Nat) (hromHeader : s.romHeader = some p)
    (hramHeader : s.ramHeader = some q)
    (hrom : SegmentAt s.elfData p romOffset f)
    (hram : SegmentAt s.elfData q ramOffset d) :
    Flashed L s (segmentOfFile s.elfData romOffset f)
        (segmentOfFile s.elfData ramOffset d)
      ↔ f + d ≤ ROM_SIZE.toNat := by
  have hrun := flashRom_run (L.device .rom).zeroed hromHeader hramHeader hrom
    hram
  unfold Flashed
  rw [hrun]
  constructor
  · rintro ⟨firmware, hok, -⟩
    by_contra hover
    have hsize : ¬ f + d ≤ (L.device .rom).deviceSize.toNat := hover
    rw [if_neg hsize] at hok
    cases hok
  · intro hfits
    refine ⟨_, if_pos hfits, laidOut_overlay L ?_⟩
    rw [hrom.length, hram.length]
    exact hfits

-- ============================================================== two files

/-- A file with a segment for ROM at offset 116 and one for RAM, whose
sizes and whose offset are these words; behind the headers the data. -/
def twoSegments (romSize ramOffset ramSize data : List U8) : List U8 :=
  [0x7f, 0x45, 0x4c, 0x46, 1, 1, 1, 0, 0, 0, 0, 0, 0, 0, 0, 0,
    2, 0, 0xf3, 0, 1, 0, 0, 0, 0, 0, 0, 0x80, 52, 0, 0, 0, 0, 0, 0, 0,
    0, 0, 0, 0, 52, 0, 32, 0, 2, 0, 40, 0, 0, 0, 0, 0]
    ++ ([1, 0, 0, 0, 116, 0, 0, 0, 0, 0, 0, 0x80, 0, 0, 0, 0x80]
      ++ (romSize ++ (romSize ++ ([5, 0, 0, 0, 4, 0, 0, 0]
        ++ ([1, 0, 0, 0] ++ (ramOffset ++ ([0, 0, 0, 0x40, 0, 0, 0, 0x40]
          ++ (ramSize ++ (ramSize ++ ([6, 0, 0, 0, 4, 0, 0, 0]
            ++ data))))))))))

/-- Four bytes of program and one byte of data. -/
def smallFile : ElfParser where
  elfData := twoSegments [4, 0, 0, 0] [120, 0, 0, 0] [1, 0, 0, 0]
    [0x6f, 0, 0, 0, 42]
  ramHeader := some 84
  romHeader := some 52

theorem small_file_flashed :
    Flashed .linker smallFile [0x6f, 0, 0, 0] [42] := by
  refine (flashed_iff .linker smallFile 52 84 116 4 120 1 rfl rfl ?_ ?_).2
    (by decide)
  · exact ⟨⟨116, by decide, rfl⟩, ⟨4, 4, by decide, by decide, rfl⟩,
      by decide⟩
  · exact ⟨⟨120, by decide, rfl⟩, ⟨1, 1, by decide, by decide, rfl⟩,
      by decide⟩

/-- A program that fills ROM and one byte of data. -/
def fullFile (data : List U8) : List U8 :=
  twoSegments [0, 0, 0x20, 0] [0x74, 0, 0x20, 0] [1, 0, 0, 0] data

theorem length_fullFile (data : List U8) :
    (fullFile data).length = data.length + 116 := by
  unfold fullFile twoSegments
  simp only [List.length_append, List.length_cons, List.length_nil]
  omega

/-- Such a file is accepted. -/
theorem fullFile_accepted {data : List U8} (h : data.length + 116 < 2 ^ 32) :
    initStructures (fullFile data)
      = .ok (some ⟨fullFile data, some 84, some 52⟩) := by
  have hcontents : contents (fullFile data) = fullFile data := by
    rw [contents, length_fullFile, Nat.mod_eq_of_lt h]
    exact List.take_of_length_le (Nat.le_of_eq (length_fullFile data))
  rw [initStructures, hcontents]
  rfl

/-- Its segments are inside of it when the data are. -/
theorem fullFile_segments {data : List U8} (h : 2097153 ≤ data.length) :
    SegmentAt (fullFile data) 52 116 2097152
      ∧ SegmentAt (fullFile data) 84 2097268 1 := by
  have hlen := length_fullFile data
  exact ⟨⟨⟨116, rfl, rfl⟩, ⟨0x200000, 0x200000, rfl, rfl, rfl⟩, by omega⟩,
    ⟨⟨2097268, rfl, rfl⟩, ⟨1, 1, rfl, rfl, rfl⟩, by omega⟩⟩

/-- And their last byte is written behind the buffer. -/
theorem fullFile_overflows (L : Layout) {data : List U8}
    (h : 2097153 ≤ data.length) :
    ¬ Flashed L ⟨fullFile data, some 84, some 52⟩
      (segmentOfFile (fullFile data) 116 2097152)
      (segmentOfFile (fullFile data) 2097268 1) := by
  rintro ⟨firmware, hflash, -⟩
  obtain ⟨hrom, hram⟩ := fullFile_segments h
  have hrun := flashRom_run (s := ⟨fullFile data, some 84, some 52⟩)
    (L.device .rom).zeroed rfl rfl hrom hram
  have hsize : ¬ 2097152 + 1 ≤ (L.device .rom).deviceSize.toNat := by
    show ¬ 2097152 + 1 ≤ ROM_SIZE.toNat
    decide
  rw [if_neg hsize] at hrun
  cases hrun.symm.trans hflash

/-- The file of zeros is accepted, its segments are inside of it, and
they are not flashed. -/
theorem full_file_not_flashed :
    let file := fullFile (List.replicate 2097153 0)
    initStructures file = .ok (some ⟨file, some 84, some 52⟩)
      ∧ SegmentAt file 52 116 2097152 ∧ SegmentAt file 84 2097268 1
      ∧ ¬ Flashed .linker ⟨file, some 84, some 52⟩
        (segmentOfFile file 116 2097152) (segmentOfFile file 2097268 1) := by
  have hlen : (List.replicate 2097153 (0 : U8)).length = 2097153 :=
    List.length_replicate
  obtain ⟨hrom, hram⟩ := fullFile_segments (Nat.le_of_eq hlen.symm)
  exact ⟨fullFile_accepted (by rw [hlen]; decide), hrom, hram,
    fullFile_overflows .linker (Nat.le_of_eq hlen.symm)⟩

end T89Emu
