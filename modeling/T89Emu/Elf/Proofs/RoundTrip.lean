/-
A program is read back from the file as it was written.

`Executable` is a program as a linker has it: an entry point, and parts
with an address, flags and contents, of which only some are loaded. Its
`file` is the header, the table of program headers and the contents, one
behind the other.

Where the header and the bytes of a part lie follows from the parts in
front of it (`drop_partHeader`, `drop_partBytes`), so the scan for the
segments sees what the parts are (`isSegment_iff`), and `Scanned` says
which of them it ends with.
-/
import T89Emu.Dwarf.Proofs.Attribute
import T89Emu.Dwarf.Proofs.UnitWalk
import T89Emu.Elf.Proofs.Flash
import T89Emu.Elf.Proofs.Loading
import T89Emu.Lib.FirstMatch

namespace T89Emu

open Bytes Cpp Dwarf Elf ElfParser

-- =========================================================== what is written

/-- A part of a program: where it goes and what it holds, its bytes and
behind them zeros that the file does not have. -/
structure Part where
  type : U32
  addr : U32
  flags : U32
  align : U32
  bytes : List U8
  zeros : Nat

/-- What the part is for the parser. -/
def Part.segment (part : Part) : Segment :=
  if part.type ≠ PT_LOAD then .other else segmentOf part.flags

/-- The `ElfProgramHeader` of a part with its bytes at `offset`. -/
def Part.header (part : Part) (offset : Nat) : List U32 :=
  [part.type, BitVec.ofNat 32 offset, part.addr, part.addr,
    BitVec.ofNat 32 part.bytes.length,
    BitVec.ofNat 32 (part.bytes.length + part.zeros), part.flags,
    part.align]

/-- The headers of parts whose bytes lie one behind the other. -/
def partHeaders : Nat → List Part → List U8
  | _, [] => []
  | offset, part :: parts => (part.header offset).flatMap word32
      ++ partHeaders (offset + part.bytes.length) parts

structure Executable where
  entry : U32
  parts : List Part

namespace Executable

variable (x : Executable)

/-- The `ElfHeader`: the table of program headers is right behind it. -/
def header : List U8 :=
  [0x7f, 0x45, 0x4c, 0x46, 1, 1, 1, 0, 0, 0, 0, 0, 0, 0, 0, 0]
    ++ (word16 2 ++ (word16 0xf3 ++ ([1, x.entry, 52, 0, 0].flatMap word32
      ++ (word16 52 ++ (word16 32
        ++ (word16 (BitVec.ofNat 16 x.parts.length)
          ++ (word16 40 ++ (word16 0 ++ word16 0))))))))

/-- Where the bytes of the parts begin. -/
def bytesOffset : Nat := HEADER_SIZE + PROGRAM_HEADER_SIZE * x.parts.length

def file : List U8 :=
  x.header ++ (partHeaders x.bytesOffset x.parts
    ++ x.parts.flatMap Part.bytes)

/-- The numbers that are written down fit into their fields. -/
structure Fits : Prop where
  count : x.parts.length < 2 ^ 16
  size : x.file.length < 2 ^ 32
  sizes : ∀ part ∈ x.parts, part.bytes.length + part.zeros < 2 ^ 32

end Executable

-- ========================================================== words and halves

variable {elfData t : List U8}

/-- A word is read where it was written. -/
theorem wordAt_of_drop {p : Nat} {v : U32}
    (h : elfData.drop p = word32 v ++ t) : wordAt elfData p = .ok v :=
  wordAt_of_uint32 (reads_uint32 v _ t h)

/-- Words that lie one behind the other are read each at its place. -/
theorem wordAt_words {words : List U32} {p k : Nat} {v : U32}
    (h : elfData.drop p = words.flatMap word32 ++ t)
    (hk : words[k]? = some v) : wordAt elfData (p + 4 * k) = .ok v := by
  induction words generalizing p k with
  | nil => cases hk
  | cons w words ih =>
      rw [List.flatMap_cons, List.append_assoc] at h
      cases k with
      | zero =>
          obtain rfl := Option.some.inj hk
          exact wordAt_of_drop h
      | succ k =>
          have hbehind : elfData.drop (p + 4)
              = words.flatMap word32 ++ t := by
            rw [← List.drop_drop, h]
            rfl
          rw [Nat.mul_succ, Nat.add_comm (4 * k), ← Nat.add_assoc]
          exact ih hbehind hk

/-- And so is a half. -/
theorem halfAt_of_drop {p : Nat} {v : U16}
    (h : elfData.drop p = word16 v ++ t) : halfAt elfData p = .ok v := by
  have hbyte : ∀ k, elfData[p + k]? = (word16 v ++ t)[k]? := by
    intro k
    rw [← h, List.getElem?_drop]
  have h0 : byteAt elfData p = .ok (byteOf v 0) := by
    rw [byteAt, ← Nat.add_zero p, hbyte 0]
    rfl
  have h1 : byteAt elfData (p + 1) = .ok (byteOf v 1) := by
    rw [byteAt, hbyte 1]
    rfl
  have hv : (byteOf v 1 ++ byteOf v 0 : U16) = v := by
    obtain ⟨hlow, hhigh⟩ := byteOf_halfword (byteOf v 0) (byteOf v 1)
    refine eq_of_byteOf_eq (w := 2) fun k hk => ?_
    interval_cases k
    · exact hlow
    · exact hhigh
  rw [halfAt, h0, ok_bind, h1, ok_bind, hv]
  rfl

-- ======================================================= where the parts lie

/-- The header has the length of the format. -/
theorem length_header (x : Executable) : x.header.length = HEADER_SIZE := rfl

/-- The table has an entry of the same length for every part. -/
theorem length_partHeaders (offset : Nat) (parts : List Part) :
    (partHeaders offset parts).length
      = PROGRAM_HEADER_SIZE * parts.length := by
  induction parts generalizing offset with
  | nil => rfl
  | cons part parts ih =>
      rw [partHeaders, List.length_append, ih, List.length_cons,
        Nat.mul_succ, Nat.add_comm]
      rfl

/-- The entries of the parts behind others: their offsets are behind the
bytes of those. -/
theorem partHeaders_append (offset : Nat) (front back : List Part) :
    partHeaders offset (front ++ back) = partHeaders offset front
      ++ partHeaders (offset + (front.flatMap Part.bytes).length) back := by
  induction front generalizing offset with
  | nil => rfl
  | cons part front ih =>
      rw [List.cons_append, partHeaders, ih, partHeaders, List.append_assoc,
        List.flatMap_cons, List.length_append, Nat.add_assoc]

variable {x : Executable} {front back : List Part} {part : Part}

/-- The place of the header behind those of the parts in front. -/
def headerOffset (front : List Part) : Nat :=
  HEADER_SIZE + PROGRAM_HEADER_SIZE * front.length

/-- And of the bytes. -/
def Executable.offsetOf (x : Executable) (front : List Part) : Nat :=
  x.bytesOffset + (front.flatMap Part.bytes).length

/-- The header of a part lies behind those of the parts before it. -/
theorem drop_partHeader (hparts : x.parts = front ++ part :: back) :
    ∃ t, x.file.drop (headerOffset front)
      = (part.header (x.offsetOf front)).flatMap word32 ++ t := by
  have hlen : (x.header ++ partHeaders x.bytesOffset front).length
      = headerOffset front := by
    rw [List.length_append, length_header, length_partHeaders]
    rfl
  refine ⟨partHeaders (x.offsetOf front + part.bytes.length) back
    ++ x.parts.flatMap Part.bytes, ?_⟩
  rw [Executable.file]
  nth_rewrite 1 [hparts]
  rw [partHeaders_append, partHeaders, List.append_assoc,
    ← List.append_assoc x.header, List.drop_left' hlen, List.append_assoc]
  rfl

/-- Its bytes lie where the header says. -/
theorem drop_partBytes (hparts : x.parts = front ++ part :: back) :
    ∃ t, x.file.drop (x.offsetOf front) = part.bytes ++ t := by
  have hlen : (x.header ++ (partHeaders x.bytesOffset x.parts
      ++ front.flatMap Part.bytes)).length = x.offsetOf front := by
    rw [List.length_append, List.length_append, length_header,
      length_partHeaders, ← Nat.add_assoc]
    rfl
  have hsplit : x.parts.flatMap Part.bytes = front.flatMap Part.bytes
      ++ (part.bytes ++ back.flatMap Part.bytes) := by
    rw [hparts, List.flatMap_append, List.flatMap_cons]
  refine ⟨back.flatMap Part.bytes, ?_⟩
  rw [Executable.file, hsplit, ← List.append_assoc (partHeaders _ _),
    ← List.append_assoc x.header, List.drop_left' hlen]

/-- They end inside the file. -/
theorem offsetOf_add_le (hparts : x.parts = front ++ part :: back) :
    x.offsetOf front + part.bytes.length ≤ x.file.length := by
  have hsplit : (x.parts.flatMap Part.bytes).length
      = (front.flatMap Part.bytes).length
        + (part.bytes.length + (back.flatMap Part.bytes).length) := by
    rw [hparts, List.flatMap_append, List.flatMap_cons, List.length_append,
      List.length_append]
  rw [Executable.file, List.length_append, List.length_append, hsplit,
    length_header, length_partHeaders, Executable.offsetOf,
    Executable.bytesOffset]
  omega

-- ======================================================== what the scan sees

/-- An entry of the table is read as its part says. -/
theorem getProgramHeader_file (x : Executable) {idx : Nat}
    (hidx : idx < 2 ^ 16) : getProgramHeader x.file idx
      = .ok (HEADER_SIZE + PROGRAM_HEADER_SIZE * idx) := by
  have hphoff : wordAt x.file PHOFF = .ok 52 := rfl
  have hphentsize : halfAt x.file PHENTSIZE = .ok 32 := rfl
  have hsmall : ¬ 2 ^ 31 ≤ idx * (32 : U16).toNat := by
    show ¬ 2 ^ 31 ≤ idx * 32
    omega
  rw [getProgramHeader, hphoff, hphentsize]
  show (if 2 ^ 31 ≤ idx * (32 : U16).toNat then _ else _) = _
  rw [if_neg hsmall, Nat.mul_comm idx]
  rfl

/-- A part is read as a segment of its own kind. -/
theorem classify_part (hparts : x.parts = front ++ part :: back) :
    classify x.file (headerOffset front) = .ok part.segment := by
  obtain ⟨t, ht⟩ := drop_partHeader hparts
  have htype : phType x.file (headerOffset front) = .ok part.type :=
    wordAt_words (k := 0) ht rfl
  have hflags : phFlags x.file (headerOffset front) = .ok part.flags :=
    wordAt_words (k := 6) ht rfl
  rw [classify, htype, ok_bind, hflags, Part.segment]
  split
  · rfl
  · rfl

/-- A segment of the file is a part of the program. -/
theorem isSegment_iff (h : x.Fits) {kind : Segment} {i : Nat}
    (hi : i < x.parts.length) :
    IsSegment x.file kind i ↔ x.parts[i].segment = kind := by
  have hparts : x.parts
      = x.parts.take i ++ x.parts[i] :: x.parts.drop (i + 1) := by
    rw [← List.drop_eq_getElem_cons hi, List.take_append_drop]
  have hclass := classify_part hparts
  rw [headerOffset, List.length_take_of_le (Nat.le_of_lt hi)] at hclass
  have hseg : IsSegment x.file x.parts[i].segment i :=
    ⟨_, getProgramHeader_file x (hi.trans h.count), hclass⟩
  constructor
  · exact fun hkind => hseg.unique hkind
  · rintro rfl
    exact hseg

-- ============================================================= what it finds

/-- The first part of a kind. -/
def Executable.first (x : Executable) (kind : Segment) : Option Part :=
  FirstMatch.search (fun part => part.segment = kind) x.parts

/-- No two parts are for RAM. -/
def Executable.OneRam (x : Executable) : Prop :=
  x.parts.Pairwise fun a b => a.segment = .ram → b.segment ≠ .ram

/-- The header that the scan keeps is the one of the first part. -/
theorem header_of_first (h : x.Fits) {kind : Segment} {header : Option Nat}
    (hheader : FirstOf x.file kind x.parts.length header)
    (hfirst : x.first kind = some part) :
    ∃ front back, x.parts = front ++ part :: back
      ∧ header = some (headerOffset front) := by
  obtain ⟨hpart, front, back, hparts, hfront⟩ :=
    FirstMatch.search_eq_some_iff.1 hfirst
  refine ⟨front, back, hparts, ?_⟩
  have hlen : front.length < x.parts.length := by
    rw [hparts, List.length_append, List.length_cons]
    omega
  have hget : x.parts[front.length] = part := by
    simp only [hparts, List.getElem_append_right, Nat.le_refl, Nat.sub_self,
      List.getElem_cons_zero]
  have hseg : IsSegment x.file kind front.length := by
    rw [isSegment_iff h hlen, hget, hpart]
  cases header with
  | none => exact absurd hseg (hheader _ hlen)
  | some p =>
      obtain ⟨i, hi, hp, hsegi, hbefore⟩ := hheader
      obtain hlt | rfl | hlt := Nat.lt_trichotomy i front.length
      · have hgeti : x.parts[i] = front[i] := by
          simp only [hparts, List.getElem_append_left hlt]
        have hkind := (isSegment_iff h hi).1 hsegi
        rw [hgeti] at hkind
        exact absurd hkind (hfront _ (List.getElem_mem hlt))
      · rw [getProgramHeader_file x (hi.trans h.count)] at hp
        exact congrArg some (Except.ok.inj hp).symm
      · exact absurd hseg (hbefore _ hlt)

/-- Where there is no such part, there is no header. -/
theorem header_of_none (h : x.Fits) {kind : Segment} {header : Option Nat}
    (hheader : FirstOf x.file kind x.parts.length header)
    (hfirst : x.first kind = none) : header = none := by
  cases header with
  | none => rfl
  | some p =>
      obtain ⟨i, hi, -, hseg, -⟩ := hheader
      exact absurd ((isSegment_iff h hi).1 hseg)
        (FirstMatch.search_eq_none_iff.1 hfirst _ (List.getElem_mem hi))

/-- The scan of the file ends unless two parts are for RAM, and then ends
the program. -/
theorem scan_file (h : x.Fits) :
    (x.OneRam → ∃ s, scan ⟨x.file, none, none⟩
        (List.range x.parts.length) = .ok s
        ∧ Scanned x.file x.parts.length s)
      ∧ (¬ x.OneRam → scan ⟨x.file, none, none⟩
        (List.range x.parts.length) = .error .exit) := by
  cases hscan : scan ⟨x.file, none, none⟩ (List.range x.parts.length) with
  | ok s =>
      have hs := scanned_of_scan hscan
      refine ⟨fun _ => ⟨s, rfl, hs⟩, fun htwo => absurd ?_ htwo⟩
      rw [Executable.OneRam, List.pairwise_iff_getElem]
      intro i j hi hj hlt hrami hramj
      have heq := hs.single i hi j hj ((isSegment_iff h hi).2 hrami)
        ((isSegment_iff h hj).2 hramj)
      omega
  | error e =>
      obtain ⟨j, hj, s, hs, hround⟩ := scan_error hscan
      rcases scanEntry_error hround with
        ⟨-, hnone⟩ | ⟨rfl, hram, p, hp⟩
      · rw [hs.data] at hnone
        exact absurd ((isSegment_iff h hj).2 rfl) (hnone _)
      · refine ⟨fun hone => ?_, fun _ => rfl⟩
        have hfound := hs.ram
        rw [hp] at hfound
        obtain ⟨i, hij, -, hrami, -⟩ := hfound
        rw [hs.data, isSegment_iff h hj] at hram
        rw [isSegment_iff h (hij.trans hj)] at hrami
        exact absurd hram
          (List.pairwise_iff_getElem.1 hone i j _ hj hij hrami)

-- ========================================================= what is read back

/-- The file passes the checks, so that the scan decides. -/
theorem initStructures_file (h : x.Fits) :
    initStructures x.file = (scan ⟨x.file, none, none⟩
      (List.range x.parts.length) >>= fun s => pure (some s)) := by
  have hcontents : contents x.file = x.file := by
    rw [contents, Nat.mod_eq_of_lt h.size, List.take_length]
  have hne : x.file ≠ [] := List.cons_ne_nil _ _
  have hformat : allPass x.file format = .ok true := rfl
  have hphnum : halfAt x.file PHNUM
      = .ok (BitVec.ofNat 16 x.parts.length) := halfAt_of_drop rfl
  have hcount : (BitVec.ofNat 16 x.parts.length).toNat = x.parts.length := by
    rw [BitVec.toNat_ofNat, Nat.mod_eq_of_lt h.count]
  rw [initStructures, hcontents, if_neg hne, hformat, hphnum]
  show (scan _ (List.range (BitVec.ofNat 16 x.parts.length).toNat) >>= _) = _
  rw [hcount]

/-- What is read of the header of a part. -/
theorem segmentAt_part (h : x.Fits)
    (hparts : x.parts = front ++ part :: back) :
    phPaddr x.file (headerOffset front) = .ok part.addr
      ∧ SegmentAt x.file (headerOffset front) (x.offsetOf front)
        part.bytes.length
      ∧ segmentOfFile x.file (x.offsetOf front) part.bytes.length
        = part.bytes := by
  obtain ⟨t, ht⟩ := drop_partHeader hparts
  obtain ⟨behind, hbytes⟩ := drop_partBytes hparts
  have hin := offsetOf_add_le hparts
  have hsize : part.bytes.length + part.zeros < 2 ^ 32 :=
    h.sizes part (hparts ▸ List.mem_append_right _ (List.mem_cons_self ..))
  have hfile := h.size
  refine ⟨wordAt_words (k := 3) ht rfl,
    ⟨⟨_, wordAt_words (k := 1) ht rfl, ?_⟩,
      ⟨_, _, wordAt_words (k := 4) ht rfl,
        wordAt_words (k := 5) ht rfl, ?_⟩, .inr hin⟩, ?_⟩
  · rw [BitVec.toNat_ofNat, Nat.mod_eq_of_lt (by omega)]
  · rw [BitVec.toNat_ofNat, BitVec.toNat_ofNat,
      Nat.mod_eq_of_lt (by omega), Nat.mod_eq_of_lt hsize]
    omega
  · rw [segmentOfFile, hbytes, List.take_left]

/-- The address of a part; a null pointer is used where there is none. -/
def addressOf : Option Part → Proc U32
  | some part => .ok part.addr
  | none => .error .nullDereference

/-- The address of the first part of a kind, or of none. -/
theorem address_of_first (h : x.Fits) {kind : Segment} {header : Option Nat}
    (hheader : FirstOf x.file kind x.parts.length header) :
    (dereference header >>= fun p => Eval.toProc (phPaddr x.file p))
      = addressOf (x.first kind) := by
  cases hfirst : x.first kind with
  | none =>
      rw [header_of_none h hheader hfirst]
      rfl
  | some part =>
      obtain ⟨front, back, hparts, rfl⟩ :=
        header_of_first h hheader hfirst
      rw [dereference, pure_eq_ok, ok_bind, (segmentAt_part h hparts).1]
      rfl

/-- A program is read back from its file, whatever its parts and their
order: it is refused if two parts are for RAM, and else the entry point,
the addresses and the bytes of the parts for ROM and RAM are found. -/
theorem executable_read_back (x : Executable) (h : x.Fits) :
    (¬ x.OneRam → initStructures x.file = .error .exit)
      ∧ (x.OneRam → ∃ s, initStructures x.file = .ok (some s)
        ∧ s.getEntryPc = .ok x.entry
        ∧ s.getRomStart = addressOf (x.first .rom)
        ∧ s.getRamStart = addressOf (x.first .ram)
        ∧ ∀ rom ram, x.first .rom = some rom →
          x.first .ram = some ram → ∀ (n : Nat) (buf : Buffer n),
          s.flashRom buf
            = if rom.bytes.length + ram.bytes.length ≤ n then
                .ok (buf.overlay 0 (rom.bytes ++ ram.bytes))
              else .error (.undefined .outOfBounds)) := by
  obtain ⟨hone, htwo⟩ := scan_file h
  rw [initStructures_file h]
  constructor
  · intro hrams
    rw [htwo hrams, error_bind]
  · intro hrams
    obtain ⟨⟨data, ramHeader, romHeader⟩, hscan, hs⟩ := hone hrams
    obtain rfl : data = x.file := hs.data
    rw [hscan, ok_bind]
    refine ⟨_, rfl, ?_, ?_, ?_, ?_⟩
    · have hentry : wordAt x.file ENTRY = .ok x.entry := wordAt_of_drop rfl
      rw [getEntryPc, hentry]
      rfl
    · exact address_of_first h hs.rom
    · exact address_of_first h hs.ram
    · intro rom ram hrom hram n buf
      obtain ⟨front, back, hparts, rfl⟩ := header_of_first h hs.rom hrom
      obtain ⟨front', back', hparts', rfl⟩ :=
        header_of_first h hs.ram hram
      obtain ⟨-, hromAt, hromBytes⟩ := segmentAt_part h hparts
      obtain ⟨-, hramAt, hramBytes⟩ := segmentAt_part h hparts'
      rw [flashRom_run buf rfl rfl hromAt hramAt, hromBytes, hramBytes]

/-- A part that is not loaded, four bytes of program, and one byte of data
with three zeros behind it. -/
def threeParts : Executable where
  entry := 0x80000000
  parts := [⟨0x70000003, 0, 4, 1, [65], 0⟩,
    ⟨PT_LOAD, 0x80000000, 5, 4, [0x6f, 0, 0, 0], 0⟩,
    ⟨PT_LOAD, 0x40000000, 6, 4, [42], 3⟩]

/-- The parts may come in any order, and need not all be loaded. -/
theorem three_parts_read_back : ∃ s,
    initStructures threeParts.file = .ok (some s)
      ∧ s.getEntryPc = .ok 0x80000000 ∧ s.getRomStart = .ok 0x80000000
      ∧ s.getRamStart = .ok 0x40000000
      ∧ s.flashRom (Layout.linker.device .rom).zeroed
        = .ok (Buffer.overlay (Layout.linker.device .rom).zeroed 0
          [0x6f, 0, 0, 0, 42]) := by
  have hone : threeParts.OneRam := by
    unfold Executable.OneRam
    decide
  have hroom : 4 + 1 ≤ (Layout.linker.device .rom).deviceSize.toNat := by
    show 5 ≤ ROM_SIZE.toNat
    decide
  obtain ⟨-, h⟩ := executable_read_back threeParts
    ⟨by decide, by decide +kernel, by decide⟩
  obtain ⟨s, hs, hentry, hrom, hram, hflash⟩ := h hone
  have hboth := hflash _ _ rfl rfl _ (Layout.linker.device .rom).zeroed
  exact ⟨s, hs, hentry, hrom, hram, hboth.trans (if_pos hroom)⟩

end T89Emu
