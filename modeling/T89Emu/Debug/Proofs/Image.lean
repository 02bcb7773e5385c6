/-
The program in the file and the program that runs.

`Built` says what the constructor of the debugger makes of a file: the
machine starts at the entry of the file, with the segment of ROM and
behind it that of RAM in its ROM and zeros elsewhere (`built_of_new`).
No command of a session writes ROM, so whatever the guest does, what is
fetched from ROM is what the file says (`image_fetched`).

The machine that starts with this memory in the sense of the instruction
set is `resetMachine`. The state that was built simulates it, so running
the emulator on a file executes the file (`file_executed`).
-/
import T89Emu.Core.Proofs.ReadOnly
import T89Emu.Debug.Proofs.SourceStep
import T89Emu.Elf.Proofs.Flash
import T89Emu.Isa.Proofs.Simulation

namespace T89Emu

open Bytes Cpp Elf ElfParser Run Dwarf

variable {L : Layout}

-- ================================================ statement vocabulary

/-- The bytes are those of the file that the header designates. -/
structure Designates (elfData : List U8) (header : Option Nat)
    (bytes : List U8) : Prop where
  place : ∃ p offset filesz memsz, header = some p
    ∧ phOffset elfData p = .ok offset ∧ phFilesz elfData p = .ok filesz
    ∧ phMemsz elfData p = .ok memsz
    ∧ bytes = segmentOfFile elfData offset.toNat
      (min filesz.toNat memsz.toNat)
    ∧ bytes.length = min filesz.toNat memsz.toNat

/-- What is flashed: the segment of ROM and behind it that of RAM, zeros
behind both. -/
def imageByte (rom ram : List U8) (k : Nat) : U8 := (rom ++ ram).getD k 0

/-- A word of it. -/
def imageWord (rom ram : List U8) (k : Nat) : U32 :=
  join 4 fun i => imageByte rom ram (k + i)

namespace McuDebug

/-- What the constructor made of a file. -/
structure Built (file : List U8) (d : McuDebug L) (elf : ElfParser)
    (rom ram : List U8) : Prop where
  accepted : initStructures file = .ok (some elf)
  romBytes : Designates elf.elfData elf.romHeader rom
  ramBytes : Designates elf.elfData elf.ramHeader ram
  fits : rom.length + ram.length ≤ ROM_SIZE.toNat
  romStart : elf.getRomStart = .ok L.romBase
  ramStart : elf.getRamStart = .ok L.ramBase
  entry : elf.getEntryPc = .ok d.mcu.pc
  mcu : d.mcu = .boot L d.mcu.pc fun i => imageByte rom ram i.val
  unbroken : d.breakpoints = []

end McuDebug

-- ============================================================ the segments

/-- A header designates the bytes of its segment. -/
theorem designates_of_segmentAt {elfData : List U8} {header : Option Nat}
    {p offset size : Nat} (hp : header = some p)
    (h : SegmentAt elfData p offset size) :
    Designates elfData header (segmentOfFile elfData offset size) := by
  obtain ⟨v, hv, rfl⟩ := h.starts
  obtain ⟨filesz, memsz, hfilesz, hmemsz, rfl⟩ := h.sizes
  exact ⟨p, v, filesz, memsz, hp, hv, hfilesz, hmemsz, rfl, h.length⟩

/-- A header designates one list of bytes. -/
theorem Designates.unique {elfData : List U8} {header : Option Nat}
    {a b : List U8} (ha : Designates elfData header a)
    (hb : Designates elfData header b) : a = b := by
  obtain ⟨p, offset, filesz, memsz, rfl, hoffset, hfilesz, hmemsz, rfl, -⟩ :=
    ha.place
  obtain ⟨q, offset', filesz', memsz', hq, hoffset', hfilesz', hmemsz', rfl,
    -⟩ := hb.place
  cases hq
  cases hoffset.symm.trans hoffset'
  cases hfilesz.symm.trans hfilesz'
  cases hmemsz.symm.trans hmemsz'
  rfl

/-- What is in a fresh ROM behind the loops of `flashRom`. -/
theorem flashRom_zeroed {s : ElfParser}
    {firmware : (L.device .rom).Mem}
    (h : s.flashRom (L.device .rom).zeroed = .ok firmware) :
    ∃ rom ram, Designates s.elfData s.romHeader rom
      ∧ Designates s.elfData s.ramHeader ram
      ∧ rom.length + ram.length ≤ ROM_SIZE.toNat
      ∧ firmware = fun i => imageByte rom ram i.val := by
  obtain ⟨p, romOffset, f, q, ramOffset, d, hp, hrom, hq, hram, hfits, rfl⟩ :=
    flashRom_ok h
  refine ⟨_, _, designates_of_segmentAt hp hrom,
    designates_of_segmentAt hq hram, ?_, ?_⟩
  · rw [hrom.length, hram.length]
    exact hfits
  · funext i
    rw [Buffer.overlay, if_pos (Nat.zero_le _), Nat.sub_zero]
    rfl

namespace McuDebug

/-- The constructor, taken apart. -/
theorem built_of_new {files : FileSystem} {fuel : Nat} {file : List U8}
    {d : McuDebug L} (h : McuDebug.new files fuel file = .ok ⟨L, d⟩) :
    ∃ elf rom ram, Built file d elf rom ram := by
  obtain ⟨accepted, haccepted, h⟩ := bind_eq_ok.1 h
  cases accepted with
  | none => cases h
  | some elf =>
      obtain ⟨dwarfParser, -, h⟩ := bind_eq_ok.1 h
      obtain ⟨romStart, hromStart, h⟩ := bind_eq_ok.1 h
      obtain ⟨ramStart, hramStart, h⟩ := bind_eq_ok.1 h
      obtain ⟨entryPc, hentry, h⟩ := bind_eq_ok.1 h
      obtain ⟨firmware, hfirmware, h⟩ := bind_eq_ok.1 h
      obtain ⟨d', hd', h⟩ := bind_eq_ok.1 h
      obtain ⟨line, -, hattach⟩ := bind_eq_ok.1 hd'
      cases h
      cases hattach
      obtain ⟨rom, ram, hrom, hram, hfits, rfl⟩ := flashRom_zeroed hfirmware
      exact ⟨elf, rom, ram, haccepted, hrom, hram, hfits, hromStart,
        hramStart, hentry, rfl, rfl⟩

-- ================================================================ fetches

section

variable {file : List U8} {d : McuDebug L} {elf : ElfParser}
  {rom ram : List U8}

/-- The devices at the start. -/
theorem boot_rom (L : Layout) (entryPc : U32)
    (firmware : (L.device .rom).Mem) :
    (Mcu.boot L entryPc firmware).mem .rom = firmware := by
  show Function.update (Mcu.new L entryPc).mem .rom firmware .rom = _
  exact Function.update_self ..

theorem boot_other (L : Layout) (entryPc : U32)
    (firmware : (L.device .rom).Mem) {k : DeviceClass} (hk : k ≠ .rom) :
    (Mcu.boot L entryPc firmware).mem k = (L.device k).zeroed :=
  Function.update_of_ne hk ..

theorem Built.rom_byte (h : Built file d elf rom ram)
    (i : Fin (L.device .rom).deviceSize.toNat) :
    d.mcu.mem .rom i = imageByte rom ram i := by
  rw [h.mcu, boot_rom]

/-- The first device on the bus is ROM, so nothing hides its words. -/
theorem select_rom (hspace : L.romBase.toNat + ROM_SIZE.toNat < 2 ^ 32)
    {k : Nat} (hk : k ≤ ROM_SIZE.toNat) :
    Mcu.bus.select L.device (L.romBase + BitVec.ofNat 32 k)
      = some .rom := by
  have haddr : (L.romBase + BitVec.ofNat 32 k).toNat
      = L.romBase.toNat + k := by
    rw [BitVec.toNat_add, BitVec.toNat_ofNat]
    omega
  have hend : (L.romBase + ROM_SIZE).toNat
      = L.romBase.toNat + ROM_SIZE.toNat := by
    rw [BitVec.toNat_add]
    omega
  refine FirstMatch.search_cons_of_pos ⟨?_, ?_⟩
  · show L.romBase ≤ _
    rw [BitVec.le_def, haddr]
    omega
  · show _ ≤ L.romBase + ROM_SIZE
    rw [BitVec.le_def, haddr, hend]
    omega

/-- As long as ROM is what was built, a word that is fetched from it is
one of the image. -/
theorem Built.rom_word (h : Built file d elf rom ram)
    (hspace : L.romBase.toNat + ROM_SIZE.toNat < 2 ^ 32) {s : Mcu L}
    (hrom : s.mem .rom = d.mcu.mem .rom) {k : Nat}
    (hal : (L.romBase.toNat + k) % 4 = 0) (hk : k + 4 ≤ ROM_SIZE.toNat) :
    s.busRead (L.romBase + BitVec.ofNat 32 k) WORD
      = .ok (STATUS_OK, some (imageWord rom ram k)) := by
  have haddr : (L.romBase + BitVec.ofNat 32 k).toNat
      = L.romBase.toNat + k := by
    rw [BitVec.toNat_add, BitVec.toNat_ofNat]
    omega
  have hoff : (L.device .rom).getAddress (L.romBase + BitVec.ofNat 32 k)
      = k := by
    show (L.romBase + BitVec.ofNat 32 k - L.romBase).toNat = k
    rw [BitVec.add_comm, BitVec.add_sub_cancel, BitVec.toNat_ofNat]
    omega
  rw [Mcu.busRead_eq_ok_iff isAccessSize_word (by rw [haddr]; exact hal)]
  have hwidth : (L.device .rom).readWidth WORD = 4 := rfl
  have hfit : (L.device .rom).getAddress (L.romBase + BitVec.ofNat 32 k)
      + (L.device .rom).readWidth WORD
        ≤ (L.device .rom).deviceSize.toNat := by
    rw [hoff, hwidth]
    exact hk
  refine ⟨.rom, select_rom hspace (by omega), hfit, ?_⟩
  refine eq_of_byteOf_eq (w := 4) fun j hj => ?_
  rw [byteOf_setWidth (w := 4) _ hj, Buffer.byteOf_peek _ hfit hj, hrom,
    h.rom_byte, imageWord, byteOf_join _ hj]
  exact congrArg (fun o => imageByte rom ram (o + j)) hoff

end

end McuDebug

-- ============================================================== execution

/-- The machine of the instruction set that starts with the image where
ROM is, and zeros in its registers and elsewhere. -/
def resetMachine (L : Layout) (entryPc : U32) (rom ram : List U8) :
    Rv32.Machine where
  pc := entryPc
  regs := fun _ => 0
  mem := fun a =>
    if (a - L.romBase).toNat < ROM_SIZE.toNat then
      imageByte rom ram (a - L.romBase).toNat
    else 0

theorem mem_resetMachine (L : Layout) (entryPc : U32) (rom ram : List U8)
    (a : U32) :
    (resetMachine L entryPc rom ram).mem a
      = if (a - L.romBase).toNat < ROM_SIZE.toNat then
          imageByte rom ram (a - L.romBase).toNat
        else 0 := rfl

/-- An offset in ROM is that of an address that ROM owns. -/
theorem owns_rom {a : U32} (hfit : (L.device .rom).limit ≤ 2 ^ 32)
    (h : (a - L.romBase).toNat < ROM_SIZE.toNat) :
    (L.device .rom).Owns a := by
  have hspace : L.romBase.toNat + ROM_SIZE.toNat ≤ 2 ^ 32 := hfit
  have ha := a.isLt
  show L.romBase.toNat ≤ a.toNat
    ∧ a.toNat < L.romBase.toNat + ROM_SIZE.toNat
  rw [BitVec.toNat_sub] at h
  omega

namespace McuDebug

variable {file : List U8} {d : McuDebug L} {elf : ElfParser}
  {rom ram : List U8}

/-- The state that was built stands for it. -/
theorem Built.simulates (h : Built file d elf rom ram)
    (hwf : Mcu.bus.WellFormed L.device) :
    Mcu.Simulates d.mcu (resetMachine L d.mcu.pc rom ram) := by
  refine ⟨rfl, by rw [h.mcu]; rfl, fun r => ?_, fun k hk i => ?_⟩
  · rw [h.mcu]
    show RegisterFile.reset.read r = _
    unfold Rv32.Machine.x resetMachine
    split
    · next hr => rw [hr, RegisterFile.read_zero]
    · rfl
  · have hi := i.isLt
    have hfit : (L.device k).limit ≤ 2 ^ 32 := hwf.fits k (Mcu.mem_bus k)
    unfold MemoryDevice.limit at hfit
    generalize hb : (L.device k).baseAddress + BitVec.ofNat 32 i = b
    have hbnat : b.toNat = (L.device k).baseAddress.toNat + i := by
      rw [← hb, BitVec.toNat_add, BitVec.toNat_ofNat]
      omega
    have howns : (L.device k).Owns b := by
      unfold MemoryDevice.Owns MemoryDevice.limit
      omega
    rw [mem_resetMachine]
    by_cases hrom : k = .rom
    · subst hrom
      have hoff : (b - L.romBase).toNat = i := by
        rw [← hb]
        show (L.romBase + BitVec.ofNat 32 i - L.romBase).toNat = i
        rw [BitVec.add_comm, BitVec.add_sub_cancel, BitVec.toNat_ofNat]
        have hsize : (L.device .rom).deviceSize.toNat < 2 ^ 32 :=
          BitVec.isLt _
        omega
      rw [h.rom_byte, hoff]
      exact (if_pos hi).symm
    · rw [if_neg fun hin => hrom (hwf.unique b k (Mcu.mem_bus k) .rom
        (Mcu.mem_bus _) howns (owns_rom (hwf.fits .rom (Mcu.mem_bus _)) hin)),
        h.mcu, boot_other L _ _ hrom]
      rfl

/-- Without breakpoints the loop is a run. -/
theorem executeLoop_of_steps {n : Nat} {t : Mcu L}
    (hbreak : d.breakpoints = [])
    (h : steps Mcu.nextInstruction n d.mcu = .ok t) :
    d.executeLoop n = .ok { d with mcu := t } := by
  induction n generalizing d with
  | zero =>
      cases h
      rfl
  | succ n ih =>
      rw [steps_succ_front] at h
      obtain ⟨u, hu, h⟩ := bind_eq_ok.1 h
      have hgo : ¬ d.isBreakpoint d.mcu.pc = true := by
        rw [isBreakpoint, hbreak]
        simp
      rw [executeLoop, if_neg hgo, hu, ok_bind]
      exact ih (d := { d with mcu := u }) hbreak h

/-- The emulator executes the file: what the instruction set makes of the
image in as many instructions is what the debugger's run comes to, if
each of them is one that the emulator follows. -/
theorem file_executed (files : FileSystem) (fuel : Nat) (file : List U8)
    (L : Layout) (d : McuDebug L) (cycles : U32) (m : Rv32.Machine)
    (hnew : McuDebug.new files fuel file = .ok ⟨L, d⟩)
    (hwf : Mcu.bus.WellFormed L.device) :
    ∃ elf rom ram, Built file d elf rom ram
      ∧ (Rv32.Runs (Mcu.Served L) cycles.toNat
          (resetMachine L d.mcu.pc rom ram) m →
        ∃ d', d.executeInstructions cycles = .ok d'
          ∧ Mcu.Simulates d'.mcu m) := by
  obtain ⟨elf, rom, ram, hbuilt⟩ := built_of_new hnew
  refine ⟨elf, rom, ram, hbuilt, fun hrun => ?_⟩
  have hmie : d.mcu.csr.getMie = 0 := by
    rw [hbuilt.mcu]
    show Csr.reset.getMie = 0
    decide
  obtain ⟨t, ht, hsim, -⟩ := (hbuilt.simulates hwf).runs hwf hrun hmie
  exact ⟨_, executeLoop_of_steps hbuilt.unbroken ht, hsim⟩

-- ================================================================ one file

def wordBytes (v : U32) : List U8 :=
  [byteOf v 0, byteOf v 1, byteOf v 2, byteOf v 3]

/-- A header of a load entry. -/
def programHeader (offset paddr size flags : U32) : List U8 :=
  [1, offset, paddr, paddr, size, size, flags, 4].flatMap wordBytes

/-- A header of a section. -/
def sectionEntry (name offset size : U32) : List U8 :=
  [name, 1, 0, 0, offset, size, 0, 0, 1, 0].flatMap wordBytes

/-- The file of a program that stores the base of RAM there, loads it
again and stops, with a pointer for data and the debug sections of two
lines. -/
def storeLoadFile : List U8 :=
  [0x7f, 0x45, 0x4c, 0x46, 1, 1, 1, 0, 0, 0, 0, 0, 0, 0, 0, 0,
      2, 0, 0xf3, 0, 1, 0, 0, 0]
    ++ [0x80000000, 52, 366, 0].flatMap wordBytes
    ++ [52, 0, 32, 0, 2, 0, 40, 0, 9, 0, 8, 0]
    ++ programHeader 116 0x80000000 16 5
    ++ programHeader 132 0x40000000 4 6
    ++ [0x400000b7, 0x0010a023, 0x0000a103, 0x0000006f, 0x30000008].flatMap
      wordBytes
    ++ twoLineUnit ++ twoLineAbbrev ++ twoLineProgram
    ++ [0, 0, 0, 0, 1, 0x80000000, 16, 2].flatMap wordBytes
    ++ sectionName "\x00_start\x00"
    ++ ([".debug_info", ".debug_abbrev", ".debug_str", ".debug_line",
      ".debug_line_str", ".debug_frame", ".symtab", ".strtab",
      ".shstrtab"].flatMap fun name => sectionName name ++ [0])
    ++ sectionEntry 0 136 21 ++ sectionEntry 12 157 10
    ++ sectionEntry 26 222 0 ++ sectionEntry 37 167 55
    ++ sectionEntry 49 222 0 ++ sectionEntry 65 222 0
    ++ sectionEntry 78 222 32 ++ sectionEntry 86 254 8
    ++ sectionEntry 94 262 104

/-- It is accepted. -/
theorem storeLoad_new : ∃ d : McuDebug .linker,
    McuDebug.new (fun _ => none) 2 storeLoadFile = .ok ⟨.linker, d⟩
      ∧ d.mcu.pc = 0x80000000 := by
  have hrun : (McuDebug.new (fun _ => none) 2 storeLoadFile).map
      (fun r => (r.1.romBase, r.1.ramBase, r.2.mcu.pc))
        = .ok (0x80000000, 0x40000000, 0x80000000) := by
    decide +kernel
  obtain ⟨⟨⟨romBase, ramBase⟩, d⟩, hnew, hbases⟩ := map_eq_ok.1 hrun
  obtain ⟨hrom, hrest⟩ := Prod.mk.inj hbases
  obtain ⟨hram, hpc⟩ := Prod.mk.inj hrest
  dsimp only at hrom hram
  subst hrom hram
  exact ⟨d, hnew, hpc⟩

/-- Its image. -/
theorem Built.storeLoad {d : McuDebug .linker}
    (h : Built storeLoadFile d elf rom ram) :
    rom = [0x400000b7, 0x0010a023, 0x0000a103, 0x0000006f].flatMap wordBytes
      ∧ ram = wordBytes 0x30000008 := by
  have haccepted : initStructures storeLoadFile
      = .ok (some ⟨storeLoadFile, some 84, some 52⟩) := by decide +kernel
  cases haccepted.symm.trans h.accepted
  have hrom : SegmentAt storeLoadFile 52 116 16 :=
    ⟨⟨116, by decide +kernel, rfl⟩,
      ⟨16, 16, by decide +kernel, by decide +kernel, rfl⟩,
      by decide +kernel⟩
  have hram : SegmentAt storeLoadFile 84 132 4 :=
    ⟨⟨132, by decide +kernel, rfl⟩,
      ⟨4, 4, by decide +kernel, by decide +kernel, rfl⟩, by decide +kernel⟩
  obtain rfl := h.romBytes.unique (designates_of_segmentAt rfl hrom)
  obtain rfl := h.ramBytes.unique (designates_of_segmentAt rfl hram)
  exact ⟨by decide +kernel, by decide +kernel⟩

/-- Running it for three cycles leaves the base of RAM in the register that
was loaded. -/
theorem file_executed_store_load :
    ∃ d d' : McuDebug .linker,
      McuDebug.new (fun _ => none) 2 storeLoadFile = .ok ⟨.linker, d⟩
        ∧ d.executeInstructions 3 = .ok d' ∧ d'.mcu.pc = 0x8000000c
        ∧ d'.mcu.rf.read 2 = 0x40000000 := by
  obtain ⟨d, hnew, hpc⟩ := storeLoad_new
  let m₀ := resetMachine .linker 0x80000000
    ([0x400000b7, 0x0010a023, 0x0000a103, 0x0000006f].flatMap wordBytes)
    (wordBytes 0x30000008)
  let m₁ := (Rv32.Instruction.lui 1 0x40000).exec m₀
  let m₂ := (Rv32.Instruction.store .sw 1 1 0).exec m₁
  let m₃ := (Rv32.Instruction.load .lw 2 1 0).exec m₂
  obtain ⟨elf, rom, ram, hbuilt, hrun⟩ := file_executed (fun _ => none) 2
    storeLoadFile .linker d 3 m₃ hnew Mcu.linker_wellFormed
  obtain ⟨rfl, rfl⟩ := hbuilt.storeLoad
  rw [hpc] at hrun
  have hstore : Mcu.Served .linker m₁ (.store .sw 1 1 0) :=
    ⟨by decide +kernel,
      ⟨.rom, by decide +kernel, by decide, by decide +kernel⟩,
      by decide +kernel, .ram,
      ⟨by decide +kernel, by decide, by decide +kernel⟩, by decide⟩
  have hload : Mcu.Served .linker m₂ (.load .lw 2 1 0) :=
    ⟨by decide +kernel,
      ⟨.rom, by decide +kernel, by decide, by decide +kernel⟩,
      by decide +kernel,
      ⟨.ram, by decide +kernel, by decide, by decide +kernel⟩,
      fun j h4 hj => absurd hj (Nat.not_lt.2 h4)⟩
  obtain ⟨d', hd', hsim⟩ := hrun (.step (i := .lui 1 0x40000)
    (by decide +kernel)
    ⟨by decide +kernel,
      ⟨.rom, by decide +kernel, by decide, by decide +kernel⟩, trivial⟩
    (.step (by decide +kernel) hstore
      (.step (by decide +kernel) hload (.done _))))
  refine ⟨d, d', hnew, hd', ?_, ?_⟩
  · rw [hsim.pc]
    decide +kernel
  · rw [hsim.regs]
    decide +kernel

end McuDebug

end T89Emu
