/-
What the boot code leaves in memory.

`flashRom` puts the segment of RAM into ROM, behind that of ROM itself,
and the linker script places `_program_end` there. So what `load_ram`
copies from `_program_end` is that segment, byte by byte, and it copies
it to where the program expects it (`data_loaded`).

The compiled code keeps variables of its own in its frame. `SameBut`
says that a stretch of it touches nothing else that the C code relies
on, and `Stored` joins such stretches with the words that are stored
between them.
-/
import T89Emu.Debug.Proofs.Image
import T89Emu.Firmware.Bootup
import T89Emu.Firmware.Proofs.Guest

namespace T89Emu

open Bytes Cpp Dwarf

namespace Firmware

-- ================================================ statement vocabulary

/-- The symbols of a program, as the linker script places them: `ram` is
the data segment, `bss` the size of what is cleared. The variable
`mtimecmp_l` is in the data, and points at the timer's comparator. -/
structure Linked (sym : Symbols) (rom ram : List U8) (bss : Nat) :
    Prop where
  programEnd : sym.programEnd = Layout.linker.address .rom rom.length
  sdata : sym.sdata = Layout.linker.address .ram 0
  edata : sym.edata = Layout.linker.address .ram ram.length
  sbss : sym.sbss = Layout.linker.address .ram ram.length
  ebss : sym.ebss = Layout.linker.address .ram (ram.length + bss)
  romAligned : rom.length % 4 = 0
  ramAligned : ram.length % 4 = 0
  bssAligned : bss % 4 = 0
  fits : ram.length + bss ≤ RAM_SIZE.toNat
  pointer : ∃ o, sym.mtimecmpL = Layout.linker.address .ram o ∧ o % 4 = 0
    ∧ o + 4 ≤ ram.length
    ∧ ∀ j < 4, ram.getD (o + j) 0
      = byteOf (Layout.linker.address .clint 8) j

/-- The machine is the same but for the bytes of RAM that are named, the
counter, the keyboard, and what no C code sees. -/
structure SameBut (touched : Set Nat) (s t : Mcu .linker) : Prop where
  ram : ∀ i, i ∉ touched → (t.mem .ram).get i = (s.mem .ram).get i
  rom : t.mem .rom = s.mem .rom
  video : t.mem .video = s.mem .video
  clint : ∀ i, 8 ≤ i → i ∉ Set.Ico 16 20 →
    (t.mem .clint).get i = (s.mem .clint).get i
  mie : t.csr.getMie = s.csr.getMie

/-- A window of RAM holds the bytes, and only it and the frame differ. -/
structure Stored (frame : Set Nat) (o len : Nat) (f : Nat → U8)
    (s t : Mcu .linker) : Prop where
  bytes : ∀ j < len, (t.mem .ram).get (o + j) = f j
  same : SameBut (frame ∪ Set.Ico o (o + len)) s t

/-- Memory as the program expects it at `kernel_main`. -/
structure Loaded (frame : Set Nat) (ram : List U8) (bss : Nat)
    (s t : Mcu .linker) : Prop where
  data : ∀ i < ram.length, (t.mem .ram).get i = ram.getD i 0
  cleared : ∀ i, ram.length ≤ i → i < ram.length + bss →
    (t.mem .ram).get i = 0
  rest : ∀ i, ram.length + bss ≤ i → i ∉ frame →
    (t.mem .ram).get i = (s.mem .ram).get i
  rom : t.mem .rom = s.mem .rom
  video : t.mem .video = s.mem .video
  timer : ∀ j < 4,
    (t.mem .clint).get (8 + j) = byteOf (0x20000000 : U32) j
  clint : ∀ i, 12 ≤ i → i ∉ Set.Ico 16 20 →
    (t.mem .clint).get i = (s.mem .clint).get i
  off : t.csr.getMie = 0

-- ============================================================= the frame

namespace SameBut

variable {touched touched' : Set Nat} {s t u : Mcu .linker}

/-- Nothing done touches nothing. -/
theorem refl (touched : Set Nat) (s : Mcu .linker) : SameBut touched s s :=
  ⟨fun _ _ => rfl, rfl, rfl, fun _ _ _ => rfl, rfl⟩

/-- Two stretches of code touch what either does. -/
theorem trans (h : SameBut touched s t) (h' : SameBut touched t u) :
    SameBut touched s u where
  ram i hi := (h'.ram i hi).trans (h.ram i hi)
  rom := h'.rom.trans h.rom
  video := h'.video.trans h.video
  clint i hi hkeys := (h'.clint i hi hkeys).trans (h.clint i hi hkeys)
  mie := h'.mie.trans h.mie

/-- More may be touched than was. -/
theorem mono (h : SameBut touched s t) (hsub : touched ⊆ touched') :
    SameBut touched' s t :=
  { h with ram := fun i hi => h.ram i fun hin => hi (hsub hin) }

/-- A window of RAM is filled. -/
theorem fill (s : Mcu .linker) (o len : Nat) (f : Nat → U8) :
    SameBut (Set.Ico o (o + len)) s (fillMem s .ram o len f) where
  ram i hi := by
    rw [fillMem_self]
    refine Buffer.get_fill_of_not_mem _ _ ?_
    rw [Set.mem_Ico] at hi
    omega
  rom := fillMem_other _ _ _ _ _ (by decide)
  video := fillMem_other _ _ _ _ _ (by decide)
  clint i _ _ := by rw [fillMem_other _ _ _ _ _ (by decide)]
  mie := rfl

end SameBut

namespace Stored

variable {frame : Set Nat} {o len len' : Nat} {f g : Nat → U8}
  {s t u : Mcu .linker}

/-- An empty window holds anything. -/
theorem nil (s : Mcu .linker) : Stored frame o 0 f s s :=
  ⟨fun j hj => absurd hj (Nat.not_lt_zero j), .refl _ s⟩

/-- A window behind another one: the frame is behind both. -/
theorem append (h : Stored frame o len f s t)
    (h' : Stored frame (o + len) len' g t u)
    (hg : ∀ j < len', g j = f (len + j))
    (hframe : ∀ i ∈ frame, o + len ≤ i) :
    Stored frame o (len + len') f s u where
  bytes j hj := by
    by_cases hlow : j < len
    · rw [h'.same.ram _ fun hin => ?_, h.bytes j hlow]
      rcases hin with hin | hin
      · have := hframe _ hin
        omega
      · have := (Set.mem_Ico.1 hin).1
        omega
    · have hhigh := h'.bytes (j - len) (by omega)
      rw [hg _ (by omega), show len + (j - len) = j by omega,
        show o + len + (j - len) = o + j by omega] at hhigh
      exact hhigh
  same := by
    refine (h.same.mono ?_).trans (h'.same.mono ?_)
    · refine Set.union_subset_union_right _ (Set.Ico_subset_Ico_right ?_)
      omega
    · refine Set.union_subset_union_right _ (Set.Ico_subset_Ico ?_ ?_)
      · omega
      · omega

end Stored

-- ============================================================ the loops

/-- Addresses in RAM are in order, with that of its end. -/
theorem ram_address_lt {o p : Nat} (hop : o < p)
    (hp : p ≤ RAM_SIZE.toNat) :
    Layout.linker.address .ram o < Layout.linker.address .ram p := by
  have hsize : RAM_SIZE.toNat < 2 ^ 30 := by decide
  have haddr : ∀ q ≤ RAM_SIZE.toNat,
      (Layout.linker.address .ram q).toNat = 0x40000000 + q := by
    intro q hq
    show ((0x40000000#32) + BitVec.ofNat 32 q).toNat = _
    rw [BitVec.toNat_add, BitVec.toNat_ofNat, BitVec.toNat_ofNat]
    omega
  rw [BitVec.lt_def, haddr o (by omega), haddr p hp]
  omega

variable {meanwhile : Mcu .linker → Mcu .linker} {frame : Set Nat}
  {s : Mcu .linker} {m fuel : Nat}

/-- One word of RAM is assigned. -/
theorem store_stored (hm : ∀ s, SameBut frame s (meanwhile s)) {o : Nat}
    (hin : o + 4 ≤ RAM_SIZE.toNat) (ho : o % 4 = 0) (v : U32) :
    ∃ t, store (meanwhile s) (Layout.linker.address .ram o) v WORD = .ok t
      ∧ Stored frame o 4 (byteOf v) s t := by
  refine ⟨_, store_place isAccessSize_word (by decide) hin ho v,
    fun j hj => ?_, ?_⟩
  · have hlt : o + j < (Layout.linker.device .ram).deviceSize.toNat := by
      show _ < RAM_SIZE.toNat
      omega
    rw [fillMem_self, Buffer.get_fill_of_mem _ _
      ⟨Nat.le_add_right .., Nat.add_lt_add_left hj o⟩ hlt,
      Nat.add_sub_cancel_left]
  · exact ((hm s).mono Set.subset_union_left).trans
      ((SameBut.fill _ o 4 _).mono Set.subset_union_right)

/-- What the first loop copies. -/
theorem copyLoop_stored (hm : ∀ s, SameBut frame s (meanwhile s))
    {o k : Nat} (hframe : ∀ i ∈ frame, o + 4 * m ≤ i)
    (hram : o + 4 * m ≤ RAM_SIZE.toNat)
    (hrom : k + 4 * m ≤ ROM_SIZE.toNat) (ho : o % 4 = 0) (hk : k % 4 = 0)
    (hfuel : m < fuel) :
    ∃ t, copyLoop meanwhile (Layout.linker.address .ram (o + 4 * m)) fuel s
          (Layout.linker.address .ram o) (Layout.linker.address .rom k)
        = .ok t
      ∧ Stored frame o (4 * m) (fun j => (s.mem .rom).get (k + j)) s t := by
  induction m generalizing s o k fuel with
  | zero =>
      obtain ⟨fuel, rfl⟩ := Nat.exists_eq_succ_of_ne_zero
        (Nat.ne_of_gt hfuel)
      rw [copyLoop, Nat.mul_zero, Nat.add_zero,
        if_neg (BitVec.lt_irrefl _)]
      exact ⟨s, rfl, .nil s⟩
  | succ m ih =>
      obtain ⟨fuel, rfl⟩ := Nat.exists_eq_succ_of_ne_zero
        (Nat.ne_of_gt (Nat.lt_of_le_of_lt (Nat.zero_le _) hfuel))
      -- the word, and where it goes
      obtain ⟨word, hword, hbytes⟩ := loadWord_bytes (s := meanwhile s)
        (k := .rom) (o := k) (show k + 4 ≤ ROM_SIZE.toNat by omega) hk
      obtain ⟨t, hstore, ht⟩ := store_stored (s := meanwhile s) hm
        (show o + 4 ≤ RAM_SIZE.toNat by omega) ho word
      have hfirst : Stored frame o 4
          (fun j => (s.mem .rom).get (k + j)) s t :=
        ⟨fun j hj => by rw [ht.bytes j hj, hbytes j hj, (hm s).rom],
          ((hm s).mono Set.subset_union_left).trans ht.same⟩
      -- the words behind it
      have hend : o + 4 * (m + 1) = o + 4 + 4 * m := by omega
      obtain ⟨u, hloop, hu⟩ := ih (s := t) (o := o + 4) (k := k + 4)
        (fun i hi => hend ▸ hframe i hi) (by omega) (by omega) (by omega)
        (by omega) (Nat.lt_of_succ_lt_succ hfuel)
      refine ⟨u, ?_, ?_⟩
      · rw [copyLoop, if_pos (ram_address_lt (by omega) hram)]
        dsimp only
        rw [hword, ok_bind, hstore, ok_bind, address_add_four,
          address_add_four, hend, hloop]
      · rw [show 4 * (m + 1) = 4 + 4 * m by omega]
        refine hfirst.append hu (fun j _ => ?_) fun i hi => ?_
        · rw [hfirst.same.rom, Nat.add_assoc]
        · have := hframe i hi
          omega

/-- What the second one clears. -/
theorem clearLoop_stored (hm : ∀ s, SameBut frame s (meanwhile s))
    {o : Nat} (hframe : ∀ i ∈ frame, o + 4 * m ≤ i)
    (hram : o + 4 * m ≤ RAM_SIZE.toNat) (ho : o % 4 = 0)
    (hfuel : m < fuel) :
    ∃ t, clearLoop meanwhile (Layout.linker.address .ram (o + 4 * m)) fuel s
          (Layout.linker.address .ram o) = .ok t
      ∧ Stored frame o (4 * m) (fun _ => 0) s t := by
  induction m generalizing s o fuel with
  | zero =>
      obtain ⟨fuel, rfl⟩ := Nat.exists_eq_succ_of_ne_zero
        (Nat.ne_of_gt hfuel)
      rw [clearLoop, Nat.mul_zero, Nat.add_zero,
        if_neg (BitVec.lt_irrefl _)]
      exact ⟨s, rfl, .nil s⟩
  | succ m ih =>
      obtain ⟨fuel, rfl⟩ := Nat.exists_eq_succ_of_ne_zero
        (Nat.ne_of_gt (Nat.lt_of_le_of_lt (Nat.zero_le _) hfuel))
      obtain ⟨t, hstore, ht⟩ := store_stored (s := s) hm
        (show o + 4 ≤ RAM_SIZE.toNat by omega) ho 0
      have hzero : ∀ j < 4, byteOf (0 : U32) j = 0 := by decide
      have hfirst : Stored frame o 4 (fun _ => 0) s t :=
        ⟨fun j hj => (ht.bytes j hj).trans (hzero j hj), ht.same⟩
      have hend : o + 4 * (m + 1) = o + 4 + 4 * m := by omega
      obtain ⟨u, hloop, hu⟩ := ih (s := t) (o := o + 4)
        (fun i hi => hend ▸ hframe i hi) (by omega) (by omega)
        (Nat.lt_of_succ_lt_succ hfuel)
      refine ⟨u, ?_, ?_⟩
      · rw [clearLoop, if_pos (ram_address_lt (by omega) hram), hstore,
          ok_bind, address_add_four, hend, hloop]
      · rw [show 4 * (m + 1) = 4 + 4 * m by omega]
        refine hfirst.append hu (fun _ _ => rfl) fun i hi => ?_
        have := hframe i hi
        omega

-- ============================================================== the boot

/-- What is behind `_program_end` is the data segment. -/
theorem flashed_data {file : List U8} {d : McuDebug .linker}
    {elf : ElfParser} {rom ram : List U8}
    (hbuilt : McuDebug.Built file d elf rom ram) {i : Nat}
    (hi : i < ram.length) :
    (d.mcu.mem .rom).get (rom.length + i) = ram.getD i 0 := by
  have hfits := hbuilt.fits
  have hlt : rom.length + i
      < (Layout.linker.device .rom).deviceSize.toNat := by
    show _ < ROM_SIZE.toNat
    omega
  rw [Buffer.get_of_lt _ hlt, hbuilt.rom_byte]
  show (rom ++ ram).getD (rom.length + i) 0 = _
  rw [List.getD_append_right _ _ _ _ (Nat.le_add_right ..),
    Nat.add_sub_cancel_left]

/-- The first loop leaves the data segment at the start of RAM. -/
theorem copy_linked {file : List U8} {d : McuDebug .linker}
    {elf : ElfParser} {rom ram : List U8}
    (hbuilt : McuDebug.Built file d elf rom ram) {sym : Symbols} {bss : Nat}
    (h : Linked sym rom ram bss) (hm : ∀ s, SameBut frame s (meanwhile s))
    (hframe : ∀ i ∈ frame, ram.length + bss ≤ i)
    (hrom : s.mem .rom = d.mcu.mem .rom) (hfuel : ram.length < fuel) :
    ∃ t, copyLoop meanwhile sym.edata fuel s sym.sdata sym.programEnd
        = .ok t
      ∧ Stored frame 0 ram.length (fun j => ram.getD j 0) s t := by
  have hflash := hbuilt.fits
  have hfits := h.fits
  have hram := h.ramAligned
  have hwords : 4 * (ram.length / 4) = ram.length := by omega
  have hrounds : ram.length / 4 < fuel := by omega
  obtain ⟨t, hloop, ht⟩ := copyLoop_stored (s := s) (o := 0)
    (k := rom.length) hm (fun i hi => by have := hframe i hi; omega)
    (by omega) (by omega) rfl h.romAligned hrounds
  rw [hwords] at ht
  rw [hwords, Nat.zero_add] at hloop
  rw [h.edata, h.sdata, h.programEnd]
  refine ⟨t, hloop, fun j hj => ?_, ht.same⟩
  rw [ht.bytes j hj, hrom, flashed_data hbuilt hj]

/-- The second one leaves zeros behind it. -/
theorem clear_linked {rom ram : List U8} {sym : Symbols} {bss : Nat}
    (h : Linked sym rom ram bss) (hm : ∀ s, SameBut frame s (meanwhile s))
    (hframe : ∀ i ∈ frame, ram.length + bss ≤ i) (hfuel : bss < fuel) :
    ∃ t, clearLoop meanwhile sym.ebss fuel s sym.sbss = .ok t
      ∧ Stored frame ram.length bss (fun _ => 0) s t := by
  have hfits := h.fits
  have hbss := h.bssAligned
  have hwords : 4 * (bss / 4) = bss := by omega
  have hrounds : bss / 4 < fuel := by omega
  have hloop := clearLoop_stored (s := s) (o := ram.length) hm
    (fun i hi => by have := hframe i hi; omega) (by omega) h.ramAligned
    hrounds
  rw [hwords] at hloop
  rwa [h.ebss, h.sbss]

section Afterwards

variable {ram : List U8} {bss : Nat} {s₁ s₂ s₃ : Mcu .linker}

/-- The code behind the loops keeps the data. -/
theorem data_kept (hframe : ∀ i ∈ frame, ram.length + bss ≤ i)
    (h₁ : Stored frame 0 ram.length (fun j => ram.getD j 0) s s₁)
    (h₂ : Stored frame ram.length bss (fun _ => 0) s₁ s₂)
    (h₃ : SameBut frame s₂ s₃) {i : Nat} (hi : i < ram.length) :
    (s₃.mem .ram).get i = ram.getD i 0 := by
  have hcopied := h₁.bytes i hi
  rw [Nat.zero_add] at hcopied
  rw [h₃.ram i fun hin => ?_, h₂.same.ram i fun hin => ?_, hcopied]
  · rcases hin with hin | hin
    · have := hframe i hin
      omega
    · have := (Set.mem_Ico.1 hin).1
      omega
  · have := hframe i hin
    omega

/-- With the comparator set, memory is as the program expects it. -/
theorem loaded_of_stored (hframe : ∀ i ∈ frame, ram.length + bss ≤ i)
    (hoff : s.csr.getMie = 0)
    (h₁ : Stored frame 0 ram.length (fun j => ram.getD j 0) s s₁)
    (h₂ : Stored frame ram.length bss (fun _ => 0) s₁ s₂)
    (h₃ : SameBut frame s₂ s₃) :
    Loaded frame ram bss s
      (fillMem s₃ .clint 8 4 (byteOf (0x20000000 : U32))) := by
  have hkept : SameBut (frame ∪ Set.Iio (ram.length + bss)) s s₃ := by
    refine (h₁.same.mono ?_).trans
      ((h₂.same.mono ?_).trans (h₃.mono Set.subset_union_left))
    · refine Set.union_subset_union_right _ fun i hi => ?_
      have := (Set.mem_Ico.1 hi).2
      exact Set.mem_Iio.2 (by omega)
    · exact Set.union_subset_union_right _ fun i hi =>
        Set.mem_Iio.2 (Set.mem_Ico.1 hi).2
  have hother : ∀ k, k ≠ .clint →
      (fillMem s₃ .clint 8 4 (byteOf (0x20000000 : U32))).mem k
        = s₃.mem k :=
    fun k hk => fillMem_other _ _ _ _ _ hk
  have hram := hother .ram (by decide)
  exact {
    data := fun i hi =>
      (congrArg (·.get i) hram).trans (data_kept hframe h₁ h₂ h₃ hi)
    cleared := fun i hlow hhigh => by
      have hzero := h₂.bytes (i - ram.length) (by omega)
      rw [show ram.length + (i - ram.length) = i by omega] at hzero
      rw [hram, h₃.ram i fun hin => ?_, hzero]
      have := hframe i hin
      omega
    rest := fun i hi hout => by
      rw [hram, hkept.ram i fun hin => ?_]
      rcases hin with hin | hin
      · exact hout hin
      · exact absurd (Set.mem_Iio.1 hin) (Nat.not_lt.2 hi)
    rom := (hother .rom (by decide)).trans hkept.rom
    video := (hother .video (by decide)).trans hkept.video
    timer := fun j hj => by
      rw [fillMem_self, Buffer.get_fill_of_mem _ _ (by omega) ?_,
        Nat.add_sub_cancel_left]
      show 8 + j < 24
      omega
    clint := fun i hi hkeys => by
      rw [fillMem_self, Buffer.get_fill_of_not_mem _ _ (.inr hi)]
      exact hkept.clint i (by omega) hkeys
    off := hkept.mie.trans hoff }

end Afterwards

/-- The boot code comes to where it enables the interrupts, with the data
of the file and zeros where the program expects them, and the timer set,
in whatever state of RAM and of the CLINT it is called: all that the
compiled code must promise is to keep to its frame. -/
theorem data_loaded (files : FileSystem) (fuel : Nat) (file : List U8)
    (d : McuDebug .linker)
    (hnew : McuDebug.new files fuel file = .ok ⟨.linker, d⟩) :
    ∃ elf rom ram, McuDebug.Built file d elf rom ram
      ∧ ∀ sym bss, Linked sym rom ram bss →
        ∀ (meanwhile : Mcu .linker → Mcu .linker) (frame : Set Nat),
          (∀ s, SameBut frame s (meanwhile s)) →
          (∀ i ∈ frame, ram.length + bss ≤ i) →
          ∀ (s : Mcu .linker) (n : Nat), s.mem .rom = d.mcu.mem .rom →
            s.csr.getMie = 0 → ram.length < n → bss < n →
            ∃ t, loadRam meanwhile sym n s = .ok t
              ∧ Loaded frame ram bss s t := by
  obtain ⟨elf, rom, ram, hbuilt⟩ := McuDebug.built_of_new hnew
  refine ⟨elf, rom, ram, hbuilt, fun sym bss h meanwhile frame hm hframe s n
    hrom hoff hn hbn => ?_⟩
  obtain ⟨s₁, hcopy, h₁⟩ := copy_linked hbuilt h hm hframe hrom hn
  obtain ⟨s₂, hclear, h₂⟩ := clear_linked (s := s₁) h hm hframe hbn
  have hfits := h.fits
  -- the pointer to the comparator is one of the words copied
  obtain ⟨o, ho, hal, hin, hpointer⟩ := h.pointer
  obtain ⟨word, hword, hbytes⟩ := loadWord_bytes (s := meanwhile s₂)
    (k := .ram) (o := o) (show o + 4 ≤ RAM_SIZE.toNat by omega) hal
  have hclint : word = Layout.linker.address .clint 8 :=
    eq_of_byteOf_eq (w := 4) fun j hj => by
      rw [hbytes j hj, data_kept hframe h₁ h₂ (hm s₂) (by omega),
        hpointer j hj]
  refine ⟨_, ?_, loaded_of_stored hframe hoff h₁ h₂
    ((hm s₂).trans (hm (meanwhile s₂)))⟩
  unfold loadRam
  rw [hcopy, ok_bind, hclear, ok_bind, ho]
  dsimp only
  rw [hword, ok_bind, hclint]
  exact store_place isAccessSize_word (by decide) (by decide) (by decide) _

/-- The pointer of the file is the variable, and the compiled code keeps a
variable at the end of RAM. -/
theorem store_load_data_loaded :
    ∃ (d : McuDebug .linker) (t : Mcu .linker),
      McuDebug.new (fun _ => none) 2 McuDebug.storeLoadFile
          = .ok ⟨.linker, d⟩
        ∧ loadRam (fun s => fillMem s .ram 0xffff0 4 fun _ => 1)
            ⟨0x80000010, 0x40000000, 0x40000004, 0x40000004, 0x4000000c,
              0x40000000⟩ 9 d.mcu = .ok t
        ∧ (t.mem .ram).get 0 = 8 ∧ (t.mem .ram).get 3 = 0x30
        ∧ (t.mem .ram).get 11 = 0 := by
  obtain ⟨d, hnew, -⟩ := McuDebug.storeLoad_new
  obtain ⟨elf, rom, ram, hbuilt, hloaded⟩ :=
    data_loaded (fun _ => none) 2 McuDebug.storeLoadFile d hnew
  obtain ⟨rfl, rfl⟩ := hbuilt.storeLoad
  have hoff : d.mcu.csr.getMie = 0 := by
    rw [hbuilt.mcu]
    show Csr.reset.getMie = 0
    decide
  obtain ⟨t, hrun, ht⟩ := hloaded ⟨0x80000010, 0x40000000, 0x40000004,
      0x40000004, 0x4000000c, 0x40000000⟩ 8
    ⟨rfl, rfl, rfl, rfl, rfl, rfl, rfl, rfl, by decide,
      0, rfl, rfl, by decide, by decide⟩ _ (Set.Ico 0xffff0 0xffff4)
    (fun s => .fill s 0xffff0 4 _)
    (fun i hi => le_trans (by decide) (Set.mem_Ico.1 hi).1) d.mcu 9 rfl hoff
    (by decide) (by decide)
  exact ⟨d, t, hnew, hrun, ht.data 0 (by decide), ht.data 3 (by decide),
    ht.cleared 11 (by decide) (by decide)⟩

end Firmware

end T89Emu
