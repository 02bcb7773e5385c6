/-
The listing of the disassembly.

Each vector is filled by loops that append, so the listing is the blocks
of the words of the executable segments in order (`generate_eq_ok`,
`sectionEntries_eq_ok`). The vectors are never emptied, but a listing
that is not empty is not generated again, and one that is empty has only
empty segments behind it, so the first call decides what every later one
returns (`calls_eq`).

A word can have the fields of an instruction for which a table has no
name, be it data or an immediate CSR instruction. One of these in an
executable segment, and there is no listing at all. A word for which
nothing is printed has its row, with a text that nobody wrote
(`listed_iff`).
-/
import T89Emu.Debug.Proofs.Image
import T89Emu.Elf.DisassembledCode
import T89Emu.Elf.Proofs.Loading
import T89Emu.Elf.Proofs.Printing
import T89Emu.Lib.Collect

namespace T89Emu

open Bytes Cpp Elf Run Collect Dwarf

namespace ElfParser

variable {s : ElfParser}

-- ================================================ statement vocabulary

/-- The address is that of a word of the segment. -/
def Covers (elfData : List U8) (pHdr : Nat) (addr : U32) : Prop :=
  ∃ paddr filesz memsz, phPaddr elfData pHdr = .ok paddr
    ∧ phFilesz elfData pHdr = .ok filesz ∧ phMemsz elfData pHdr = .ok memsz
    ∧ ∃ i, 4 * i < min filesz.toNat memsz.toNat
      ∧ addr = paddr + BitVec.ofNat 32 (4 * i)

/-- An instruction at an address. -/
def CodeEntry.standsAt (addr : U32) : CodeEntry → Bool
  | .symbol _ _ => false
  | .instruction address _ _ => address = addr

/-- The words of the segment lie inside the file, the last one perhaps
with bytes that are behind the end of the segment. -/
def WordsInside (elfData : List U8) (pHdr : Nat) : Prop :=
  ∃ paddr offset filesz memsz, phPaddr elfData pHdr = .ok paddr
    ∧ phOffset elfData pHdr = .ok offset
    ∧ phFilesz elfData pHdr = .ok filesz ∧ phMemsz elfData pHdr = .ok memsz
    ∧ (min filesz.toNat memsz.toNat = 0
      ∨ offset.toNat + (min filesz.toNat memsz.toNat + 3) / 4 * 4
        ≤ elfData.length)

/-- A word of the segment. -/
def HasWord (elfData : List U8) (pHdr : Nat) (w : U32) : Prop :=
  ∃ offset filesz memsz, phOffset elfData pHdr = .ok offset
    ∧ phFilesz elfData pHdr = .ok filesz ∧ phMemsz elfData pHdr = .ok memsz
    ∧ ∃ i, 4 * i < min filesz.toNat memsz.toNat
      ∧ wordAt elfData (offset.toNat + 4 * i) = .ok w

-- ================================================================ the loops

/-- What succeeds does so whatever its errors are turned into. -/
theorem mapError_eq_ok {ε ε' α : Type} {x : Except ε α} {f : ε → ε'}
    {a : α} : x.mapError f = .ok a ↔ x = .ok a := by
  cases x with
  | error e => exact ⟨nofun, nofun⟩
  | ok b =>
      show Except.ok b = .ok a ↔ _
      rw [Except.ok.injEq, Except.ok.injEq]

variable {symbols : List (U32 × List U8)} {pHdr : Nat}
  {entries : List CodeEntry}

/-- A word has its label, if any, and its own entry. -/
theorem entriesAt_eq_ok {paddr : U32} {idx : Nat} :
    s.entriesAt symbols pHdr paddr idx = .ok entries
      ↔ ∃ offset w line, phOffset s.elfData pHdr = .ok offset
        ∧ wordAt s.elfData (offset.toNat + idx) = .ok w
        ∧ lineOf ⟨paddr + BitVec.ofNat 32 idx, w⟩ = .ok line
        ∧ entries = labelAt symbols (paddr + BitVec.ofNat 32 idx)
          ++ [.instruction (paddr + BitVec.ofNat 32 idx) w line] := by
  constructor
  · intro h
    obtain ⟨offset, hoffset, h⟩ := bind_eq_ok.1 h
    obtain ⟨w, hw, h⟩ := bind_eq_ok.1 h
    obtain ⟨line, hline, h⟩ := bind_eq_ok.1 h
    cases h
    exact ⟨offset, w, line, toProc_eq_ok.1 (mapError_eq_ok.1 hoffset),
      toProc_eq_ok.1 (mapError_eq_ok.1 hw), hline, rfl⟩
  · rintro ⟨offset, w, line, hoffset, hw, hline, rfl⟩
    exact bind_eq_ok.2 ⟨offset,
      mapError_eq_ok.2 (toProc_eq_ok.2 hoffset), bind_eq_ok.2 ⟨w,
        mapError_eq_ok.2 (toProc_eq_ok.2 hw), bind_eq_ok.2 ⟨line, hline,
          rfl⟩⟩⟩

/-- A segment has the entries of its words. -/
theorem sectionEntries_eq_ok :
    s.sectionEntries symbols pHdr = .ok entries
      ↔ ∃ memsz filesz paddr, phMemsz s.elfData pHdr = .ok memsz
        ∧ phFilesz s.elfData pHdr = .ok filesz
        ∧ phPaddr s.elfData pHdr = .ok paddr
        ∧ ∃ blocks, List.Forall₂
            (fun i b => s.entriesAt symbols pHdr paddr (4 * i) = .ok b)
            (List.range ((min filesz.toNat memsz.toNat + 3) / 4)) blocks
          ∧ entries = blocks.flatten := by
  constructor
  · intro h
    obtain ⟨memsz, hmemsz, h⟩ := bind_eq_ok.1 h
    obtain ⟨filesz, hfilesz, h⟩ := bind_eq_ok.1 h
    obtain ⟨paddr, hpaddr, h⟩ := bind_eq_ok.1 h
    obtain ⟨blocks, hblocks, rfl⟩ := collect_eq_ok.1 h
    rw [toNat_sectionSize] at hblocks
    exact ⟨memsz, filesz, paddr, toProc_eq_ok.1 (mapError_eq_ok.1 hmemsz),
      toProc_eq_ok.1 (mapError_eq_ok.1 hfilesz),
      toProc_eq_ok.1 (mapError_eq_ok.1 hpaddr), blocks, hblocks, rfl⟩
  · rintro ⟨memsz, filesz, paddr, hmemsz, hfilesz, hpaddr, blocks, hblocks,
      rfl⟩
    rw [← toNat_sectionSize] at hblocks
    exact bind_eq_ok.2 ⟨memsz, mapError_eq_ok.2 (toProc_eq_ok.2 hmemsz),
      bind_eq_ok.2 ⟨filesz, mapError_eq_ok.2 (toProc_eq_ok.2 hfilesz),
        bind_eq_ok.2 ⟨paddr, mapError_eq_ok.2 (toProc_eq_ok.2 hpaddr),
          collect_eq_ok.2 ⟨blocks, hblocks, rfl⟩⟩⟩⟩

/-- The listing has the entries of the executable segments. -/
theorem generate_eq_ok {d d' : Disassembly} :
    s.generateDisassembledCode d = .ok d'
      ↔ s.loadSymbols d.symbols = .ok d'.symbols
        ∧ s.loadExecutables d.executableSections
          = .ok d'.executableSections
        ∧ ∃ blocks, List.Forall₂
            (fun p b => s.sectionEntries d'.symbols p = .ok b)
            d'.executableSections blocks
          ∧ d'.disassembledCode = d.disassembledCode ++ blocks.flatten := by
  constructor
  · intro h
    obtain ⟨symbols, hsymbols, h⟩ := bind_eq_ok.1 h
    obtain ⟨sections, hsections, h⟩ := bind_eq_ok.1 h
    obtain ⟨code, hcode, h⟩ := bind_eq_ok.1 h
    cases h
    exact ⟨mapError_eq_ok.1 hsymbols, mapError_eq_ok.1 hsections,
      collect_eq_ok.1 hcode⟩
  · rintro ⟨hsymbols, hsections, hcode⟩
    exact bind_eq_ok.2 ⟨_, mapError_eq_ok.2 hsymbols, bind_eq_ok.2 ⟨_,
      mapError_eq_ok.2 hsections, bind_eq_ok.2 ⟨_, collect_eq_ok.2 hcode,
        rfl⟩⟩⟩

-- =========================================================== the addresses

/-- What stands at an address in the block of a word. -/
theorem filter_block {addr place w : U32} {line : Option String} :
    (labelAt symbols addr ++ [CodeEntry.instruction addr w line]).filter
        (CodeEntry.standsAt place)
      = if addr = place then [CodeEntry.instruction addr w line] else [] := by
  have hlabel : (labelAt symbols addr).filter (CodeEntry.standsAt place)
      = [] := by
    unfold labelAt
    cases getSymbolAtAddress symbols addr with
    | none => rfl
    | some symbol => rfl
  rw [List.filter_append, hlabel, List.nil_append]
  by_cases h : addr = place
  · rw [if_pos h]
    exact List.filter_cons_of_pos (decide_eq_true h)
  · rw [if_neg h]
    exact List.filter_cons_of_neg (Bool.eq_false_iff.1 (decide_eq_false h))

/-- The words of a segment stand at different addresses. -/
theorem words_apart {paddr : U32} {size i j : Nat} (hsize : size < 2 ^ 32)
    (hi : i < (size + 3) / 4) (hj : j < (size + 3) / 4)
    (h : paddr + BitVec.ofNat 32 (4 * i)
      = paddr + BitVec.ofNat 32 (4 * j)) : i = j := by
  have hnat := congrArg BitVec.toNat ((BitVec.add_right_inj paddr).1 h)
  rw [BitVec.toNat_ofNat, BitVec.toNat_ofNat] at hnat
  omega

/-- A size is a word. -/
theorem size_lt (filesz memsz : U32) :
    min filesz.toNat memsz.toNat < 2 ^ 32 := by
  have hlt := filesz.isLt
  omega

/-- An address that a segment does not cover has no entry there. -/
theorem sectionEntries_other {addr : U32}
    (h : s.sectionEntries symbols pHdr = .ok entries)
    (hno : ¬ Covers s.elfData pHdr addr) :
    entries.filter (CodeEntry.standsAt addr) = [] := by
  obtain ⟨memsz, filesz, paddr, hmemsz, hfilesz, hpaddr, blocks, hblocks,
    rfl⟩ := sectionEntries_eq_ok.1 h
  refine filter_flatten_nil hblocks fun i hi b hb => ?_
  obtain ⟨offset, w, line, -, -, -, rfl⟩ := entriesAt_eq_ok.1 hb
  rw [filter_block]
  refine if_neg fun haddr => hno ⟨paddr, filesz, memsz, hpaddr, hfilesz,
    hmemsz, i, ?_, haddr.symm⟩
  have hlt := List.mem_range.1 hi
  omega

/-- A word that it has, has one entry. -/
theorem sectionEntries_at {paddr offset filesz memsz : U32} {i : Nat}
    (h : s.sectionEntries symbols pHdr = .ok entries)
    (hpaddr : phPaddr s.elfData pHdr = .ok paddr)
    (hoffset : phOffset s.elfData pHdr = .ok offset)
    (hfilesz : phFilesz s.elfData pHdr = .ok filesz)
    (hmemsz : phMemsz s.elfData pHdr = .ok memsz)
    (hi : 4 * i < min filesz.toNat memsz.toNat) :
    ∃ w line, wordAt s.elfData (offset.toNat + 4 * i) = .ok w
      ∧ lineOf ⟨paddr + BitVec.ofNat 32 (4 * i), w⟩ = .ok line
      ∧ entries.filter
          (CodeEntry.standsAt (paddr + BitVec.ofNat 32 (4 * i)))
        = [.instruction (paddr + BitVec.ofNat 32 (4 * i)) w line] := by
  obtain ⟨memsz', filesz', paddr', hmemsz', hfilesz', hpaddr', blocks,
    hblocks, rfl⟩ := sectionEntries_eq_ok.1 h
  cases hmemsz.symm.trans hmemsz'
  cases hfilesz.symm.trans hfilesz'
  cases hpaddr.symm.trans hpaddr'
  have hmem : i ∈ List.range ((min filesz.toNat memsz.toNat + 3) / 4) :=
    List.mem_range.2 (by omega)
  obtain ⟨front, back, hsplit, hne⟩ := exists_split List.nodup_range hmem
  rw [hsplit] at hblocks
  obtain ⟨b, hb, -, hfilter⟩ := filter_flatten
    (p := CodeEntry.standsAt (paddr + BitVec.ofNat 32 (4 * i))) hblocks
    fun j hj b hb => by
      obtain ⟨offset', w, line, -, -, -, rfl⟩ := entriesAt_eq_ok.1 hb
      have hjmem : j ∈ List.range
          ((min filesz.toNat memsz.toNat + 3) / 4) := by
        rw [hsplit]
        rcases List.mem_append.1 hj with hj | hj
        · exact List.mem_append_left _ hj
        · exact List.mem_append_right _ (List.mem_cons_of_mem _ hj)
      rw [filter_block]
      exact if_neg fun haddr => hne j hj (words_apart (size_lt _ _)
        (List.mem_range.1 hjmem) (List.mem_range.1 hmem) haddr)
  obtain ⟨offset', w, line, hoffset', hw, hline, rfl⟩ :=
    entriesAt_eq_ok.1 hb
  cases hoffset.symm.trans hoffset'
  rw [filter_block, if_pos rfl] at hfilter
  exact ⟨w, line, hw, hline, hfilter⟩

-- ========================================================= the ROM segment

/-- What is known of the headers of an accepted file. -/
theorem scanned_of_accepted {file : List U8}
    (h : initStructures file = .ok (some s)) :
    ∃ phnum, halfAt s.elfData PHNUM = .ok phnum
      ∧ Scanned s.elfData phnum.toNat s := by
  by_cases hne : contents file = []
  · rw [initStructures, if_pos hne] at h
    cases h
  · rw [initStructures, if_neg hne] at h
    obtain ⟨accepted, -, h⟩ := bind_eq_ok.1 h
    cases accepted with
    | false => cases h
    | true =>
        obtain ⟨phnum, hphnum, h⟩ := bind_eq_ok.1 h
        obtain ⟨s', hscan, h⟩ := bind_eq_ok.1 h
        cases h
        have hscanned := scanned_of_scan hscan
        have hdata : s.elfData = contents file := hscanned.data
        refine ⟨phnum, ?_, ?_⟩
        · rw [hdata]
          exact toProc_eq_ok.1 hphnum
        · rwa [hdata]

/-- The segment of ROM is executable. -/
theorem executable_of_rom {flags : U32} (h : segmentOf flags = .rom) :
    flags &&& 1 = PF_X := by
  unfold segmentOf at h
  split at h
  · cases h
  · split at h
    · next hflags =>
      have hbit : (flags &&& 1).toNat = flags.toNat % 2 := by
        rw [BitVec.toNat_and]
        exact Nat.and_one_is_mod _
      have hne : (flags &&& 1).toNat ≠ 0 := fun hzero =>
        hflags.2 (BitVec.eq_of_toNat_eq hzero)
      refine BitVec.eq_of_toNat_eq ?_
      show (flags &&& 1).toNat = 1
      omega
    · cases h

/-- The segment that is taken for ROM is one of those listed. -/
theorem rom_executable {file : List U8} {acc sections : List Nat}
    (h : initStructures file = .ok (some s)) (hrom : s.romHeader = some pHdr)
    (hsections : s.loadExecutables acc = .ok sections) :
    pHdr ∈ sections := by
  obtain ⟨phnum, hphnum, hscanned⟩ := scanned_of_accepted h
  have hfirst := hscanned.rom
  rw [hrom] at hfirst
  obtain ⟨idx, hidx, hheader, ⟨p, hp, hkind⟩, -⟩ := hfirst
  cases hheader.symm.trans hp
  obtain ⟨-, flags, hflags, hseg⟩ := classify_load hkind (by decide)
  obtain ⟨phnum', hphnum', hloop⟩ := bind_eq_ok.1 hsections
  cases hphnum.symm.trans (toProc_eq_ok.1 hphnum')
  obtain ⟨blocks, hblocks, rfl⟩ := collect_eq_ok.1 hloop
  obtain ⟨b, hb, hidxb⟩ := Lockstep.exists_partner hblocks
    (List.mem_range.2 hidx)
  have hblock : s.executableAt idx = .ok [pHdr] :=
    bind_eq_ok.2 ⟨pHdr, hheader, bind_eq_ok.2 ⟨flags,
      toProc_eq_ok.2 hflags, congrArg Except.ok
        (if_pos (executable_of_rom hseg))⟩⟩
  cases hblock.symm.trans hidxb
  exact List.mem_append_right _
    (List.mem_flatten.2 ⟨_, hb, List.mem_singleton.2 rfl⟩)

-- ================================================================ the calls

/-- A segment without a word. -/
def Blank (s : ElfParser) (pHdr : Nat) : Prop :=
  ∀ symbols, s.sectionEntries symbols pHdr = .ok []

/-- A segment without entries has no words. -/
theorem blank_of_nil (h : s.sectionEntries symbols pHdr = .ok []) :
    s.Blank pHdr := by
  obtain ⟨memsz, filesz, paddr, hmemsz, hfilesz, hpaddr, blocks, hblocks,
    hnil⟩ := sectionEntries_eq_ok.1 h
  have hnone : (min filesz.toNat memsz.toNat + 3) / 4 = 0 := by
    by_contra hne
    obtain ⟨b, hb, hentries⟩ := Lockstep.exists_partner hblocks
      (List.mem_range.2 (Nat.pos_of_ne_zero hne))
    obtain ⟨offset, w, line, -, -, -, rfl⟩ := entriesAt_eq_ok.1 hentries
    exact absurd (List.flatten_eq_nil_iff.1 hnil.symm _ hb)
      (List.append_ne_nil_of_right_ne_nil _ (List.cons_ne_nil _ _))
  intro symbols'
  refine sectionEntries_eq_ok.2 ⟨memsz, filesz, paddr, hmemsz, hfilesz,
    hpaddr, [], ?_, rfl⟩
  rw [hnone]
  exact .nil

/-- What the calls after the first one find. -/
structure Settled (s : ElfParser) (first d : Disassembly) : Prop where
  code : d.disassembledCode = first.disassembledCode
  blank : first.disassembledCode = [] → ∀ p ∈ d.executableSections, s.Blank p

/-- The first listing is settled if nothing in it was listed before. -/
theorem settled_first {first : Disassembly}
    (h : s.generateDisassembledCode .empty = .ok first) :
    s.Settled first first := by
  refine ⟨rfl, fun hnil p hp => ?_⟩
  obtain ⟨-, -, blocks, hblocks, hcode⟩ := generate_eq_ok.1 h
  obtain ⟨b, hb, hentries⟩ := Lockstep.exists_partner hblocks hp
  rw [hnil] at hcode
  obtain rfl := List.flatten_eq_nil_iff.1 hcode.symm b hb
  exact blank_of_nil hentries

/-- The program headers are searched in order, behind what is there. -/
theorem loadExecutables_append {acc sections : List Nat}
    (h : s.loadExecutables [] = .ok sections) :
    s.loadExecutables acc = .ok (acc ++ sections) := by
  obtain ⟨phnum, hphnum, hloop⟩ := bind_eq_ok.1 h
  exact bind_eq_ok.2 ⟨phnum, hphnum, collect_append hloop⟩

/-- Where the listing is empty another call appends nothing to it. -/
theorem Settled.call {first d d' : Disassembly} (h : s.Settled first d)
    (hfirst : s.generateDisassembledCode .empty = .ok first)
    (hcall : s.getDisassembledCode d = .ok d') : s.Settled first d' := by
  unfold getDisassembledCode at hcall
  split at hcall
  · next hnil =>
    obtain ⟨-, hsections, blocks, hblocks, hcode⟩ := generate_eq_ok.1 hcall
    obtain ⟨-, hnew, -⟩ := generate_eq_ok.1 hfirst
    have hnone : first.disassembledCode = [] := h.code.symm.trans hnil
    have hblank : ∀ p ∈ d'.executableSections, s.Blank p := by
      rw [← Except.ok.inj ((loadExecutables_append hnew).symm.trans
        hsections)]
      intro p hp
      rcases List.mem_append.1 hp with hp | hp
      · exact h.blank hnone p hp
      · exact (settled_first hfirst).blank hnone p hp
    have hblocks : ∀ b ∈ blocks, b = [] := by
      intro b hb
      obtain ⟨p, hp, hentries⟩ := Lockstep.exists_partner_right hblocks hb
      exact (Except.ok.inj ((hblank p hp _).symm.trans hentries)).symm
    refine ⟨?_, fun _ => hblank⟩
    rw [hcode, hnil, hnone, List.flatten_eq_nil_iff.2 hblocks]
    rfl
  · cases hcall
    exact h

/-- Each call after the first returns the listing of the first. -/
theorem calls_eq {n : Nat} {d : Disassembly}
    (h : steps s.getDisassembledCode (n + 1) .empty = .ok d) :
    ∃ first, s.generateDisassembledCode .empty = .ok first
      ∧ d.disassembledCode = first.disassembledCode := by
  rw [steps_succ_front] at h
  obtain ⟨first, hfirst, hrest⟩ := bind_eq_ok.1 h
  have hgenerate : s.generateDisassembledCode .empty = .ok first := hfirst
  have hsettled : s.Settled first d := invariant
    (fun _ _ hu hcall => hu.call hgenerate hcall) (settled_first hgenerate)
    hrest
  exact ⟨first, hgenerate, hsettled.code⟩

-- ================================================================ the texts

section

variable {entry : DisassembledEntry} {line : Option String}

/-- What the text of a row is, is what was printed. -/
theorem lineOf_text (h : lineOf entry = .ok line) (text : String) :
    line = some text ↔ generateInstructionStr entry = .ok text := by
  unfold lineOf at h
  split at h
  · next printed heq =>
    cases h
    rw [heq, Except.ok.injEq, Option.some.injEq]
  · next heq =>
    cases h
    rw [heq]
    exact iff_of_false nofun nofun
  · cases h

/-- A word has a row if the tables have its name. -/
theorem lineOf_iff : (∃ line, lineOf entry = .ok line)
    ↔ HasName entry.instruction := by
  have houtcome := outcome_generate entry
  unfold lineOf
  generalize generateInstructionStr entry = printed at houtcome ⊢
  cases houtcome with
  | written hnamed hlisted hfits => exact iff_of_true ⟨_, rfl⟩ hnamed
  | unwritten hnamed hlisted => exact iff_of_true ⟨_, rfl⟩ hnamed
  | outOfRange hnamed hlisted =>
      refine iff_of_false ?_ hnamed
      rintro ⟨line, ⟨⟩⟩

/-- And the row has a text if the word is listed. -/
theorem lineOf_written (h : lineOf entry = .ok line) :
    (∃ text, line = some text) ↔ Listed entry.instruction := by
  have houtcome := outcome_generate entry
  unfold lineOf at h
  generalize generateInstructionStr entry = printed at houtcome h
  cases houtcome with
  | written hnamed hlisted hfits =>
      cases h
      exact iff_of_true ⟨_, rfl⟩ hlisted
  | unwritten hnamed hlisted =>
      cases h
      refine iff_of_false ?_ hlisted
      rintro ⟨text, ⟨⟩⟩
  | outOfRange hnamed hlisted => cases h

end

-- ======================================================= what is listed

/-- The words of a segment that is listed lie inside the file. -/
theorem wordsInside_of_entries
    (h : s.sectionEntries symbols pHdr = .ok entries) :
    WordsInside s.elfData pHdr := by
  obtain ⟨memsz, filesz, paddr, hmemsz, hfilesz, hpaddr, blocks, hblocks,
    -⟩ := sectionEntries_eq_ok.1 h
  obtain ⟨offset, hoffset⟩ : ∃ v, phOffset s.elfData pHdr = .ok v := by
    have hle := le_of_wordAt hmemsz
    exact wordAt_inside (by omega)
  refine ⟨paddr, offset, filesz, memsz, hpaddr, hoffset, hfilesz, hmemsz, ?_⟩
  by_cases hsize : min filesz.toNat memsz.toNat = 0
  · exact .inl hsize
  · -- the last word is read, and nothing of the others lies behind it
    obtain ⟨b, -, hb⟩ := Lockstep.exists_partner hblocks
      (List.mem_range.2 (show (min filesz.toNat memsz.toNat + 3) / 4 - 1 < _
        by omega))
    obtain ⟨offset', w, line, hoffset', hw, -, -⟩ := entriesAt_eq_ok.1 hb
    cases hoffset.symm.trans hoffset'
    have hle := le_of_wordAt hw
    omega

/-- A segment is listed exactly if its words lie inside the file and the
tables have all of their names. -/
theorem sectionEntries_iff (symbols : List (U32 × List U8)) :
    (∃ entries, s.sectionEntries symbols pHdr = .ok entries)
      ↔ WordsInside s.elfData pHdr
        ∧ ∀ w, HasWord s.elfData pHdr w → HasName w := by
  constructor
  · rintro ⟨entries, h⟩
    refine ⟨wordsInside_of_entries h, ?_⟩
    rintro w ⟨offset, filesz, memsz, hoffset, hfilesz, hmemsz, i, hi, hw⟩
    obtain ⟨paddr, -, -, -, hpaddr, -⟩ := wordsInside_of_entries h
    obtain ⟨w', line, hw', hline, -⟩ := sectionEntries_at h hpaddr hoffset
      hfilesz hmemsz hi
    cases hw.symm.trans hw'
    exact lineOf_iff.1 ⟨line, hline⟩
  · rintro ⟨⟨paddr, offset, filesz, memsz, hpaddr, hoffset, hfilesz, hmemsz,
      hinside⟩, h⟩
    have hwords : ∀ i ∈ List.range
        ((min filesz.toNat memsz.toNat + 3) / 4),
          ∃ b, s.entriesAt symbols pHdr paddr (4 * i) = .ok b := by
      intro i hi
      have hlt := List.mem_range.1 hi
      obtain ⟨w, hw⟩ : ∃ w, wordAt s.elfData (offset.toNat + 4 * i) = .ok w :=
        wordAt_inside (by omega)
      have hname : HasName w := h w ⟨offset, filesz, memsz, hoffset, hfilesz,
        hmemsz, i, by omega, hw⟩
      obtain ⟨line, hline⟩ : ∃ line,
          lineOf ⟨paddr + BitVec.ofNat 32 (4 * i), w⟩ = .ok line :=
        lineOf_iff.2 hname
      exact ⟨_, entriesAt_eq_ok.2 ⟨offset, w, line, hoffset, hw, hline, rfl⟩⟩
    obtain ⟨blocks, hblocks⟩ := exists_collect hwords
    exact ⟨_, sectionEntries_eq_ok.2 ⟨memsz, filesz, paddr, hmemsz, hfilesz,
      hpaddr, blocks, hblocks, rfl⟩⟩

/-- The rows of a segment are those of its words. -/
theorem lineOf_of_mem {addr w : U32} {line : Option String}
    (h : s.sectionEntries symbols pHdr = .ok entries)
    (hmem : CodeEntry.instruction addr w line ∈ entries) :
    lineOf ⟨addr, w⟩ = .ok line := by
  obtain ⟨memsz, filesz, paddr, -, -, -, blocks, hblocks, rfl⟩ :=
    sectionEntries_eq_ok.1 h
  obtain ⟨b, hb, hmem⟩ := List.mem_flatten.1 hmem
  obtain ⟨i, -, hentries⟩ := Lockstep.exists_partner_right hblocks hb
  obtain ⟨offset, w', line', -, -, hline, rfl⟩ := entriesAt_eq_ok.1 hentries
  rcases List.mem_append.1 hmem with hlabel | hword
  · unfold labelAt at hlabel
    split at hlabel <;> simp at hlabel
  · cases List.mem_singleton.1 hword
    exact hline

/-- There is a listing exactly if the tables of symbols and of program
headers can be read, the words of the executable segments lie inside the
file, and the tables have the names of all of them, be they instructions
or not. In a listing the rows with a text are those of the words that
something is printed for. -/
theorem listed_iff (s : ElfParser) :
    ((∃ d, s.getDisassembledCode .empty = .ok d)
      ↔ (∃ symbols, s.loadSymbols [] = .ok symbols)
        ∧ ∃ sections, s.loadExecutables [] = .ok sections
          ∧ ∀ p ∈ sections, WordsInside s.elfData p
            ∧ ∀ w, HasWord s.elfData p w → HasName w)
      ∧ ∀ d, s.getDisassembledCode .empty = .ok d → ∀ address w line,
        .instruction address w line ∈ d.disassembledCode →
          ((∃ text, line = some text) ↔ Listed w) := by
  refine ⟨⟨?_, ?_⟩, ?_⟩
  · rintro ⟨d, hd⟩
    obtain ⟨hsymbols, hsections, blocks, hblocks, -⟩ := generate_eq_ok.1 hd
    refine ⟨⟨_, hsymbols⟩, _, hsections, fun p hp => ?_⟩
    obtain ⟨entries, -, hentries⟩ := Lockstep.exists_partner hblocks hp
    exact (sectionEntries_iff _).1 ⟨entries, hentries⟩
  · rintro ⟨⟨symbols, hsymbols⟩, sections, hsections, h⟩
    obtain ⟨blocks, hblocks⟩ := exists_collect fun p hp =>
      (sectionEntries_iff symbols).2 (h p hp)
    exact ⟨⟨symbols, sections, blocks.flatten⟩,
      generate_eq_ok.2 ⟨hsymbols, hsections, blocks, hblocks, rfl⟩⟩
  · intro d hd address w line hmem
    obtain ⟨-, -, blocks, hblocks, hcode⟩ := generate_eq_ok.1 hd
    rw [hcode] at hmem
    obtain ⟨b, hb, hmem⟩ := List.mem_flatten.1 hmem
    obtain ⟨p, -, hentries⟩ := Lockstep.exists_partner_right hblocks hb
    exact lineOf_written (lineOf_of_mem hentries hmem)

/-- The file of the example with another word at its end. -/
def endingIn (word : U32) : ElfParser where
  elfData := McuDebug.storeLoadFile.take 128 ++ McuDebug.wordBytes word
    ++ McuDebug.storeLoadFile.drop 132
  ramHeader := some 84
  romHeader := some 52

/-- An EBREAK at the end has its row, but no text; with a CSRRWI there is
no listing. -/
theorem ebreak_listed_csrrwi_not :
    (∃ d, (endingIn 0x00100073).getDisassembledCode .empty = .ok d
      ∧ .instruction 0x8000000c 0x00100073 none ∈ d.disassembledCode)
      ∧ ¬ ∃ d, (endingIn 0x30005073).getDisassembledCode .empty
        = .ok d := by
  have hrun : ((endingIn 0x00100073).getDisassembledCode .empty).map
      (fun d => decide (.instruction 0x8000000c 0x00100073 none
        ∈ d.disassembledCode)) = .ok true := by
    decide +kernel
  obtain ⟨d, hd, hmem⟩ := map_eq_ok.1 hrun
  refine ⟨⟨d, hd, of_decide_eq_true hmem⟩, fun h => ?_⟩
  have hsections : (endingIn 0x30005073).loadExecutables [] = .ok [52] := by
    decide +kernel
  obtain ⟨-, sections, hsections', hall⟩ :=
    (listed_iff (endingIn 0x30005073)).1.1 h
  cases hsections.symm.trans hsections'
  have hnamed : (funct3 0x30005073).toNat < csrInstructions.length :=
    (hall 52 (List.mem_singleton.2 rfl)).2 0x30005073
      ⟨116, 16, 16, by decide +kernel, by decide +kernel, by decide +kernel,
        3, by decide, by decide +kernel⟩
  exact absurd hnamed (by decide)

end ElfParser

end T89Emu
