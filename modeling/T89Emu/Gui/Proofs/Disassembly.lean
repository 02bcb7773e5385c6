/-
The row of the program counter.

The listing is made of the file and the guest runs in memory that was
made of the file, one word at a time both of them. So wherever in the
code of ROM a session has come to, the row that is marked has the text
of the word that the core will fetch there (`pc_row`).
-/
import T89Emu.Dwarf.Proofs.UnitWalk
import T89Emu.Elf.Proofs.DisassembledCode
import T89Emu.Gui.Disassembly
import T89Emu.Gui.Proofs.Application

namespace T89Emu

open Bytes Cpp Elf ElfParser Run Collect Text Dwarf

variable {L : Layout}

-- ================================================ statement vocabulary

/-- Of the executable segments only that of ROM covers the address. -/
def ElfParser.RomAlone (s : ElfParser) (addr : U32) : Prop :=
  ∃ p front back, s.romHeader = some p
    ∧ s.loadExecutables [] = .ok (front ++ p :: back)
    ∧ ∀ q ∈ front ++ back, ¬ Covers s.elfData q addr

namespace Gui

/-- The row is marked as that of the program counter. -/
def CodeRow.marked : CodeRow → Bool
  | .symbol _ => false
  | .instruction color _ _ => color = .pc

end Gui

-- =============================================================== the words

/-- A word of the file inside of a segment is one of the image. -/
theorem imageWord_eq {elfData : List U8} {offset size k : Nat}
    {ram : List U8} {w : U32} (hw : wordAt elfData (offset + k) = .ok w)
    (hlen : (segmentOfFile elfData offset size).length = size)
    (hk : k + 4 ≤ size) :
    imageWord (segmentOfFile elfData offset size) ram k = w := by
  refine eq_of_byteOf_eq (w := 4) fun j hj => ?_
  have hbyte := byteAt_of_wordAt hw hj
  have hlt : k + j < ((elfData.drop offset).take size).length := by
    unfold segmentOfFile at hlen
    omega
  have hget : (segmentOfFile elfData offset size ++ ram).getD (k + j) 0
      = byteOf w j := by
    unfold segmentOfFile
    rw [List.getD_eq_getElem?_getD, List.getElem?_append_left hlt,
      List.getElem?_take_of_lt (by omega), List.getElem?_drop]
    unfold byteAt deref at hbyte
    split at hbyte
    · next b hb =>
      rw [← Nat.add_assoc, hb]
      exact Except.ok.inj hbyte
    · cases hbyte
  rw [imageWord, byteOf_join _ hj]
  exact hget

namespace Gui

/-- A row is marked exactly if it is that of the instruction at the pc. -/
theorem marked_renderEntry {d : McuDebug L}
    (hbreak : ¬ d.isBreakpoint d.mcu.pc) (e : CodeEntry) :
    (renderEntry d e).marked = e.standsAt d.mcu.pc := by
  cases e with
  | symbol address line => rfl
  | instruction address w line =>
      show decide ((if d.isBreakpoint address then RowColor.breakpoint
        else if address = d.mcu.pc then .pc else .plain) = .pc) = _
      by_cases hpc : address = d.mcu.pc
      · subst hpc
        rw [if_neg hbreak, if_pos rfl]
        exact (decide_eq_true rfl).symm
      · rw [if_neg hpc]
        refine Eq.trans ?_ (decide_eq_false hpc).symm
        split
        · rfl
        · rfl

/-- A marked row is that of the instruction that is fetched next: in every
state of a session whose pc is at a word of the code in ROM, the row of
the pc has the text that is printed for what the core reads there, if one
is, and if no other executable segment covers the address it is the only
one that is marked. -/
theorem pc_row (files : FileSystem) (fuel : Nat) (file : List U8)
    (L : Layout) (d : McuDebug L) (inputs : List Input) (g : Gui L)
    (hnew : McuDebug.new files fuel file = .ok ⟨L, d⟩)
    (hspace : L.romBase.toNat + ROM_SIZE.toNat < 2 ^ 32)
    (hal : L.romBase.toNat % 4 = 0)
    (hrun : runApplication fuel (new d) inputs = .ok g) :
    ∃ elf rom ram, McuDebug.Built file d elf rom ram
      ∧ ∀ n disassembly k,
        steps elf.getDisassembledCode (n + 1) .empty = .ok disassembly →
        4 * k + 4 ≤ rom.length →
        g.debug.mcu.pc = L.romBase + BitVec.ofNat 32 (4 * k) →
        ¬ g.debug.isBreakpoint g.debug.mcu.pc →
        ∃ w line row, g.debug.mcu.busRead g.debug.mcu.pc WORD
            = .ok (STATUS_OK, some w)
          ∧ (∀ text, line = some text
            ↔ generateInstructionStr ⟨g.debug.mcu.pc, w⟩ = .ok text)
          ∧ row = CodeRow.instruction .pc
            (hexPadded 8 g.debug.mcu.pc.toNat ++ ":") line
          ∧ row ∈ renderDisassembly g.debug disassembly.disassembledCode
          ∧ (elf.RomAlone g.debug.mcu.pc →
            (renderDisassembly g.debug disassembly.disassembledCode).filter
              CodeRow.marked = [row]) := by
  obtain ⟨elf, rom, ram, hbuilt⟩ := McuDebug.built_of_new hnew
  refine ⟨elf, rom, ram, hbuilt, ?_⟩
  intro n disassembly k hcalls hk hpc hbreak
  have hrom := attended_rom (run_attended hrun)
  have hfits := hbuilt.fits
  have hfetch := hbuilt.rom_word (s := g.debug.mcu) hspace hrom
    (k := 4 * k) (by omega) (by omega)
  rw [← hpc] at hfetch
  obtain ⟨p, offset, filesz, memsz, hp, hoffset, hfilesz, hmemsz, hbytes,
    hlen⟩ := hbuilt.romBytes.place
  have hpaddr : phPaddr elf.elfData p = .ok L.romBase := by
    have hstart := hbuilt.romStart
    unfold getRomStart at hstart
    rw [hp] at hstart
    exact toProc_eq_ok.1 hstart
  obtain ⟨first, hfirst, hcode⟩ := calls_eq hcalls
  obtain ⟨-, hsections, blocks, hblocks, hblockscode⟩ :=
    generate_eq_ok.1 hfirst
  obtain ⟨b, hb, hentries⟩ := Lockstep.exists_partner hblocks
    (rom_executable hbuilt.accepted hp hsections)
  obtain ⟨w, line, hw, hline, hfilter⟩ := sectionEntries_at hentries hpaddr
    hoffset hfilesz hmemsz (i := k) (by omega)
  have hword : imageWord rom ram (4 * k) = w := by
    rw [hbytes]
    exact imageWord_eq hw (hbytes ▸ hlen) (by omega)
  rw [hword] at hfetch
  rw [← hpc] at hline hfilter
  have hrows : disassembly.disassembledCode = blocks.flatten := by
    rw [hcode, hblockscode]
    rfl
  have hentry : CodeEntry.instruction g.debug.mcu.pc w line ∈ b := by
    have hin := hfilter ▸ List.mem_singleton.2 rfl
    exact (List.mem_filter.1 hin).1
  have hrow : renderEntry g.debug (.instruction g.debug.mcu.pc w line)
      = .instruction .pc (hexPadded 8 g.debug.mcu.pc.toNat ++ ":") line := by
    unfold renderEntry
    dsimp only
    rw [if_neg hbreak, if_pos rfl]
  refine ⟨w, line, _, hfetch, lineOf_text hline, rfl, ?_, fun halone => ?_⟩
  · rw [hrows]
    exact List.mem_map.2
      ⟨_, List.mem_flatten.2 ⟨b, hb, hentry⟩, hrow⟩
  · obtain ⟨q, front, back, hq, hsections', hother⟩ := halone
    cases hp.symm.trans hq
    rw [← Except.ok.inj (hsections'.symm.trans hsections)] at hblocks
    obtain ⟨b', hentries', -, hflatten⟩ := filter_flatten
      (p := CodeEntry.standsAt g.debug.mcu.pc) hblocks
      fun x hx y hy => sectionEntries_other hy (hother x hx)
    cases hentries.symm.trans hentries'
    have hmarked : CodeRow.marked ∘ renderEntry g.debug
        = CodeEntry.standsAt g.debug.mcu.pc :=
      funext (marked_renderEntry hbreak)
    unfold renderDisassembly
    rw [hrows, List.filter_map, hmarked, hflatten, hfilter, List.map_cons,
      hrow]
    rfl

/-- After a step of an instruction, the row of the second one is marked. -/
theorem pc_row_store_load :
    ∃ (d : McuDebug .linker) (g : Gui .linker) (disassembly : Disassembly)
      (w : U32) (line : String),
      McuDebug.new (fun _ => none) 2 McuDebug.storeLoadFile
          = .ok ⟨.linker, d⟩
        ∧ runApplication 2 (new d) [{ idle with stepi := true }, idle] = .ok g
        ∧ getDisassembledCode ⟨McuDebug.storeLoadFile, some 84, some 52⟩
          .empty = .ok disassembly
        ∧ g.debug.mcu.busRead 0x80000004 WORD = .ok (STATUS_OK, some w)
        ∧ generateInstructionStr ⟨0x80000004, w⟩ = .ok line
        ∧ (renderDisassembly g.debug disassembly.disassembledCode).filter
            CodeRow.marked = [.instruction .pc "80000004:" (some line)] := by
  have hrun : (McuDebug.new (fun _ => none) 2 McuDebug.storeLoadFile >>=
      fun r => (runApplication 2 (new r.2)
        [{ idle with stepi := true }, idle]).map fun g =>
          (r.1.romBase, r.1.ramBase, g.debug.mcu.pc, g.debug.breakpoints))
        = .ok (0x80000000, 0x40000000, 0x80000004, []) := by
    decide +kernel
  obtain ⟨⟨⟨romBase, ramBase⟩, d⟩, hnew, hrun⟩ := bind_eq_ok.1 hrun
  obtain ⟨g, hrun, hbases⟩ := map_eq_ok.1 hrun
  obtain ⟨hrom, hrest⟩ := Prod.mk.inj hbases
  obtain ⟨hram, hrest⟩ := Prod.mk.inj hrest
  obtain ⟨hpc, hbreakpoints⟩ := Prod.mk.inj hrest
  dsimp only at hrom hram
  subst hrom hram
  have haccepted : initStructures McuDebug.storeLoadFile
      = .ok (some ⟨McuDebug.storeLoadFile, some 84, some 52⟩) := by
    decide +kernel
  have hlisting : ∃ disassembly, getDisassembledCode
      ⟨McuDebug.storeLoadFile, some 84, some 52⟩ .empty
        = .ok disassembly := by
    have hsome : (getDisassembledCode
        ⟨McuDebug.storeLoadFile, some 84, some 52⟩ .empty).isOk = true := by
      decide +kernel
    generalize getDisassembledCode _ _ = listing at hsome
    cases listing with
    | error e => cases hsome
    | ok disassembly => exact ⟨disassembly, rfl⟩
  obtain ⟨disassembly, hlisting⟩ := hlisting
  obtain ⟨elf, rom, ram, hbuilt, hrows⟩ := pc_row (fun _ => none) 2
    McuDebug.storeLoadFile .linker d [{ idle with stepi := true }, idle] g
    hnew (by decide) (by decide) hrun
  obtain ⟨rfl, rfl⟩ := hbuilt.storeLoad
  cases haccepted.symm.trans hbuilt.accepted
  have hbreak : ¬ g.debug.isBreakpoint g.debug.mcu.pc := by
    unfold McuDebug.isBreakpoint
    rw [hbreakpoints, decide_eq_true_eq]
    exact List.not_mem_nil
  obtain ⟨w, line, row, hfetch, hline, rfl, -, hmarked⟩ := hrows 0 disassembly
    1 (steps_succ_eq_ok.2 ⟨_, rfl, hlisting⟩) (by decide) hpc hbreak
  have halone : RomAlone ⟨McuDebug.storeLoadFile, some 84, some 52⟩
      g.debug.mcu.pc :=
    ⟨52, [], [], rfl, by decide +kernel, fun q hq => nomatch hq⟩
  have hrow := hmarked halone
  -- the word is the store, which has a text
  have hword := hbuilt.rom_word (s := g.debug.mcu) (by decide)
    (attended_rom (run_attended hrun)) (k := 4) (by decide) (by decide)
  rw [hpc] at hfetch hline hrow
  cases hfetch.symm.trans hword
  have htext : generateInstructionStr ⟨0x80000004, imageWord
      ([0x400000b7, 0x0010a023, 0x0000a103, 0x0000006f].flatMap
        McuDebug.wordBytes) (McuDebug.wordBytes 0x30000008) 4⟩
      = .ok "sw      ra,0(ra)" := by
    decide +kernel
  obtain rfl := (hline _).2 htext
  exact ⟨d, g, disassembly, _, _, hnew, hrun, hlisting, hfetch, htext,
    hrow⟩

end Gui

end T89Emu
