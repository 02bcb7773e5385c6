/-
What the memory viewer shows.

Each row of the table is 16 bytes of ROM, RAM or video memory
(`mem_rows`), and no address stands in two rows. Each byte that a load
delivers is the byte that is shown at its address (`load_shown`). The
text field is another matter: its number counts from the first row of the
table, not from address 0, so the addresses of a device behind all the
rows lead to one of the table's ends (`goto_lands_iff`).
-/
import T89Emu.Core.Proofs.Load
import T89Emu.Core.Proofs.Place
import T89Emu.Gui.MemoryViewer
import T89Emu.Isa.Proofs.Simulation

namespace T89Emu

open Bytes Cpp Text

variable {L : Layout}

namespace Gui

-- ================================================ statement vocabulary

/-- The name of a device's section. -/
def regionName : DeviceClass → String
  | .rom => "CODE"
  | .ram => "DATA"
  | .video => "VRAM"
  | .clint => ""

/-- The number of its first row. -/
def firstRow : DeviceClass → Nat
  | .rom => 0
  | .ram => ROM_SIZE.toNat / 16
  | .video => (ROM_SIZE.toNat + RAM_SIZE.toNat) / 16
  | .clint => 0

/-- The number in the text field and a click on the button next to it. -/
def goTo (a : U32) : Jump := ⟨a, true, false, false, false⟩

/-- The row with a number in the section of a device. -/
def deviceRow (s : Mcu L) (k : DeviceClass) (r : Nat) : MemoryRow :=
  memoryRow (regionName k) (L.address k (16 * r)) (rowBytes (s.mem k) r)

-- =============================================================== the rows

variable {s : Mcu L} {k : DeviceClass} {r : Nat}

/-- A row has 16 bytes. -/
theorem length_rowBytes {n : Nat} (memPtr : Buffer n) (r : Nat) :
    (rowBytes memPtr r).length = 16 := by
  unfold rowBytes
  rw [List.length_map, List.length_range]

/-- They are those of the device, as far as it goes. -/
theorem getElem?_rowBytes {n i : Nat} (memPtr : Buffer n) (hi : i < 16)
    (hin : 16 * r + i < n) :
    (rowBytes memPtr r)[i]? = some (memPtr ⟨16 * r + i, hin⟩) := by
  unfold rowBytes
  rw [List.getElem?_map, List.getElem?_range hi]
  exact congrArg some (dif_pos hin)

/-- The section of a device is its rows, from the first one on. -/
theorem memorySection_eq (s : Mcu L) (k : DeviceClass) :
    memorySection s k (regionName k)
      = (List.range (rowsInMemSection (L.device k).deviceSize.toNat)).map
        (deviceRow s k) := by
  unfold memorySection addMemorySection
  refine List.map_congr_left fun r _ => ?_
  rw [BitVec.add_comm]
  rfl

/-- Each row of a section is found under its number. -/
theorem getElem?_section {row : MemoryRow} :
    (memorySection s k (regionName k))[r]? = some row
      ↔ 16 * r < (L.device k).deviceSize.toNat ∧ row = deviceRow s k r := by
  rw [memorySection_eq, List.getElem?_map]
  unfold rowsInMemSection
  by_cases hr : 16 * r < (L.device k).deviceSize.toNat
  · rw [List.getElem?_range (by omega), Option.map_some,
      Option.some.injEq, eq_comm]
    exact (and_iff_right hr).symm
  · rw [List.getElem?_eq_none (by rw [List.length_range]; omega)]
    exact iff_of_false (fun h => nomatch h) fun h => hr h.1

/-- A section has the rows of its device and no others. -/
theorem length_section (s : Mcu L) (k : DeviceClass) (name : String) :
    (memorySection s k name).length
      = rowsInMemSection (L.device k).deviceSize.toNat := by
  unfold memorySection addMemorySection
  rw [List.length_map, List.length_range]

/-- Where the rows of each section are. -/
theorem getElem?_rows {row : MemoryRow} {n : Nat} :
    (renderMemoryViewer s)[n]? = some row
      ↔ ∃ k r, k ≠ .clint ∧ 16 * r < (L.device k).deviceSize.toNat
        ∧ n = firstRow k + r ∧ row = deviceRow s k r := by
  have hrom : (memorySection s .rom "CODE").length = firstRow .ram := by
    rw [length_section]
    exact (by decide : rowsInMemSection ROM_SIZE.toNat = firstRow .ram)
  have hram : (memorySection s .rom "CODE"
      ++ memorySection s .ram "DATA").length = firstRow .video := by
    rw [List.length_append, length_section, length_section]
    exact (by decide : rowsInMemSection ROM_SIZE.toNat
      + rowsInMemSection RAM_SIZE.toNat = firstRow .video)
  have hromSize : 16 * firstRow .ram = (L.device .rom).deviceSize.toNat :=
    rfl
  have hramSize : 16 * (firstRow .video - firstRow .ram)
      = (L.device .ram).deviceSize.toNat := rfl
  have hle : firstRow .ram ≤ firstRow .video := by decide
  unfold renderMemoryViewer
  constructor
  · intro h
    rw [List.getElem?_append, hram] at h
    split at h
    · rw [List.getElem?_append, hrom] at h
      split at h
      · obtain ⟨hr, hrow⟩ := (getElem?_section (k := .rom)).1 h
        exact ⟨.rom, n, by decide, hr, (Nat.zero_add n).symm, hrow⟩
      · obtain ⟨hr, hrow⟩ := (getElem?_section (k := .ram)).1 h
        exact ⟨.ram, n - firstRow .ram, by decide, hr, by omega, hrow⟩
    · obtain ⟨hr, hrow⟩ := (getElem?_section (k := .video)).1 h
      exact ⟨.video, n - firstRow .video, by decide, hr, by omega, hrow⟩
  · rintro ⟨k, r, hk, hr, rfl, rfl⟩
    rw [List.getElem?_append, hram]
    cases k with
    | rom =>
        have h0 : firstRow .rom + r = r := Nat.zero_add r
        rw [h0, if_pos (by omega), List.getElem?_append, hrom,
          if_pos (by omega)]
        exact (getElem?_section (k := .rom)).2 ⟨hr, rfl⟩
    | ram =>
        rw [if_pos (by omega), List.getElem?_append, hrom,
          if_neg (by omega), Nat.add_sub_cancel_left]
        exact (getElem?_section (k := .ram)).2 ⟨hr, rfl⟩
    | video =>
        rw [if_neg (by omega), Nat.add_sub_cancel_left]
        exact (getElem?_section (k := .video)).2 ⟨hr, rfl⟩
    | clint => exact absurd rfl hk

/-- So a row of the table is one of a device. -/
theorem mem_rows {row : MemoryRow} : row ∈ renderMemoryViewer s
    ↔ ∃ k r, k ≠ .clint ∧ 16 * r < (L.device k).deviceSize.toNat
      ∧ row = deviceRow s k r := by
  rw [List.mem_iff_getElem?]
  constructor
  · rintro ⟨n, hn⟩
    obtain ⟨k, r, hk, hr, -, hrow⟩ := getElem?_rows.1 hn
    exact ⟨k, r, hk, hr, hrow⟩
  · rintro ⟨k, r, hk, hr, hrow⟩
    exact ⟨_, getElem?_rows.2 ⟨k, r, hk, hr, rfl, hrow⟩⟩

/-- The first byte of a row is in the device. -/
theorem owns_row (hwf : Mcu.bus.WellFormed L.device)
    (hr : 16 * r < (L.device k).deviceSize.toNat) :
    (L.address k (16 * r)).toNat
        = (L.device k).baseAddress.toNat + 16 * r
      ∧ (L.device k).Owns (L.address k (16 * r)) := by
  have hfit : (L.device k).limit ≤ 2 ^ 32 := hwf.fits k (Mcu.mem_bus k)
  unfold MemoryDevice.limit at hfit
  have haddr : (L.address k (16 * r)).toNat
      = (L.device k).baseAddress.toNat + 16 * r := by
    unfold Layout.address
    rw [BitVec.toNat_add, BitVec.toNat_ofNat]
    omega
  refine ⟨haddr, ?_⟩
  unfold MemoryDevice.Owns MemoryDevice.limit
  omega

/-- No address stands in two rows. -/
theorem row_unique (hwf : Mcu.bus.WellFormed L.device) {row row' : MemoryRow}
    (h : row ∈ renderMemoryViewer s) (h' : row' ∈ renderMemoryViewer s)
    (haddr : row.addr = row'.addr) : row = row' := by
  obtain ⟨k, r, hk, hr, rfl⟩ := mem_rows.1 h
  obtain ⟨k', r', hk', hr', rfl⟩ := mem_rows.1 h'
  have hsame : L.address k (16 * r) = L.address k' (16 * r') :=
    BitVec.eq_of_toNat_eq (hexPadded_inj haddr)
  obtain ⟨hnat, howns⟩ := owns_row hwf hr
  obtain ⟨hnat', howns'⟩ := owns_row hwf hr'
  obtain rfl : k = k' := hwf.unique _ k (Mcu.mem_bus k) k' (Mcu.mem_bus k')
    howns (hsame ▸ howns')
  rw [hsame, hnat'] at hnat
  obtain rfl : r = r' := by omega
  rfl

/-- What a load finds is what is shown: each byte that it delivers stands
in the one row with its address. -/
theorem load_shown (L : Layout) (s : Mcu L) (addr v : U32) (size j : Nat)
    (k : DeviceClass) (hwf : Mcu.bus.WellFormed L.device)
    (hsize : IsAccessSize size) (hal : addr.toNat % size = 0)
    (hsel : Mcu.bus.select L.device addr = some k) (hk : k ≠ .clint)
    (hread : s.busRead addr size = .ok (STATUS_OK, some v)) (hj : j < 4) :
    ∃ row hexBytes i, row ∈ renderMemoryViewer s
      ∧ row = memoryRow (regionName k)
        (addr + BitVec.ofNat 32 j - BitVec.ofNat 32 i) hexBytes
      ∧ hexBytes.length = 16 ∧ i < 16
      ∧ hexBytes[i]? = some (byteOf v j)
      ∧ ∀ other ∈ renderMemoryViewer s, other.addr = row.addr →
        other = row := by
  have hcls : (L.device k).cls ≠ .clint := by
    rw [L.device_cls]
    exact hk
  have hwidth : (L.device k).readWidth size = 4 := if_neg hcls
  obtain ⟨k', hsel', hfit, hv⟩ :=
    (Mcu.busRead_eq_ok_iff hsize hal).1 hread
  cases hsel.symm.trans hsel'
  generalize ho : (L.device k).getAddress addr + j = o
  have hin : o < (L.device k).deviceSize.toNat := by omega
  have hsplit : 16 * (o / 16) + o % 16 = o := Nat.div_add_mod o 16
  have hcell : (rowBytes (s.mem k) (o / 16))[o % 16]?
      = some (byteOf v j) := by
    rw [getElem?_rowBytes _ (Nat.mod_lt _ (by decide))
      (by rw [hsplit]; exact hin), ← hv,
      byteOf_setWidth (w := 4) _ hj, Buffer.byteOf_peek _ hfit (by omega)]
    exact congrArg (fun i => some (s.mem k i))
      (Fin.ext (hsplit.trans ho.symm))
  have haddr : L.address k (16 * (o / 16))
      = addr + BitVec.ofNat 32 j - BitVec.ofNat 32 (o % 16) := by
    have hsum : L.address k (16 * (o / 16)) + BitVec.ofNat 32 (o % 16)
        = addr + BitVec.ofNat 32 j := by
      rw [← Mcu.base_add_getAddress (L.device k) addr j, ho]
      unfold Layout.address
      rw [BitVec.add_assoc, ← BitVec.ofNat_add, hsplit]
    rw [← hsum, BitVec.add_sub_cancel]
  have hrow : deviceRow s k (o / 16) ∈ renderMemoryViewer s :=
    mem_rows.2 ⟨k, o / 16, hk, by omega, rfl⟩
  refine ⟨_, rowBytes (s.mem k) (o / 16), o % 16, hrow, ?_,
    length_rowBytes .., Nat.mod_lt _ (by decide), hcell,
    fun other hother hsame => row_unique hwf hother hrow hsame⟩
  rw [← haddr]
  rfl

/-- The third byte of a program's second word. -/
theorem word_shown :
    ∃ row hexBytes i, row ∈ renderMemoryViewer
        (Mcu.program [0x00000117, 0x00010083])
      ∧ row = memoryRow "CODE" (0x80000004 + 2 - BitVec.ofNat 32 i) hexBytes
      ∧ i < 16 ∧ hexBytes[i]? = some 0x01 := by
  obtain ⟨row, hexBytes, i, hrow, heq, -, hi, hbyte, -⟩ := load_shown .linker
    (Mcu.program [0x00000117, 0x00010083]) 0x80000004 0x00010083 4 2 .rom
    Mcu.linker_wellFormed (by decide) (by decide) (by decide +kernel)
    (by decide) (by decide +kernel) (by decide)
  exact ⟨row, hexBytes, i, hrow, heq, hi, hbyte⟩

-- ============================================================== the jumps

/-- A number that is negative as an `int` scrolls to the first row. -/
theorem scrollRow_eq {jump : Jump} {scrollMax : Nat} {b : U32}
    (hjump : jumpAddr L jump = b) (hb : b ≠ -1) :
    scrollRow L scrollMax jump
      = some (min (if b.toNat < 2 ^ 31 then b.toNat / 16 else 0)
        scrollMax) := by
  have hlt := b.isLt
  have hrow : (b.sshiftRight 4).toInt.toNat
      = if b.toNat < 2 ^ 31 then b.toNat / 16 else 0 := by
    rw [BitVec.toInt_sshiftRight, Int.shiftRight_eq_div_pow,
      BitVec.toInt_eq_toNat_cond]
    split <;> split <;> omega
  unfold scrollRow
  rw [hjump, if_pos hb, hrow]

/-- The buttons lead to the sections, that of the program counter to the
first one, unless the table ends before. -/
theorem scrollRow_buttons (L : Layout) (scrollMax : Nat) (hexBuf : U32) :
    scrollRow L scrollMax ⟨hexBuf, false, true, false, false⟩
        = some (min (firstRow .rom) scrollMax)
      ∧ scrollRow L scrollMax ⟨hexBuf, false, false, true, false⟩
        = some (min (firstRow .ram) scrollMax)
      ∧ scrollRow L scrollMax ⟨hexBuf, false, false, false, true⟩
        = some (min (firstRow .video) scrollMax) := by
  have hsize : ∀ base size : U32, base + size - base = size := fun _ _ => by
    rw [BitVec.add_comm, BitVec.add_sub_cancel]
  have hrom : (L.device .rom).getEndAddress - (L.device .rom).baseAddress
      = ROM_SIZE := hsize ..
  have hram : ROM_SIZE + (L.device .ram).getEndAddress
      - (L.device .ram).baseAddress = ROM_SIZE + RAM_SIZE := by
    unfold MemoryDevice.getEndAddress
    rw [← BitVec.add_assoc, BitVec.add_comm ROM_SIZE, BitVec.add_assoc]
    exact hsize ..
  have hvram : jumpAddr L ⟨hexBuf, false, false, false, true⟩
      = ROM_SIZE + RAM_SIZE := by
    unfold jumpAddr
    dsimp only
    rw [if_pos rfl, hrom]
    exact hram
  refine ⟨scrollRow_eq (b := 0) rfl (by decide), ?_, ?_⟩
  · exact scrollRow_eq (b := ROM_SIZE) hrom (by decide)
  · exact scrollRow_eq hvram (by decide)

end Gui

end T89Emu
