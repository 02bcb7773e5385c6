/-
The segments of a file and the loops of `flashRom`.

`SegmentAt` is what a header says of its segment when the segment lies
inside the file; an empty one does, wherever its offset points, for not
a byte of it is read. What the loop over a segment has written is an
overlay of the buffer (`flashLoop_run`), so two segments come to lie one
behind the other (`flashRom_run`).

The other way round, loops that end have read segments that lie inside
the file (`flashRom_ok`): what is asked of the file here is what the
loops need, and no more.
-/
import T89Emu.Elf.ElfParser

namespace T89Emu

open Bytes Cpp Elf ElfParser

variable {elfData : List U8} {s : ElfParser} {n : Nat}

-- ================================================ statement vocabulary

/-- The header at `p` is that of a segment of `size` bytes, the smaller
one of its two sizes, at the offset in the file. -/
structure SegmentAt (elfData : List U8) (p offset size : Nat) : Prop where
  starts : ∃ v, phOffset elfData p = .ok v ∧ v.toNat = offset
  sizes : ∃ filesz memsz, phFilesz elfData p = .ok filesz
    ∧ phMemsz elfData p = .ok memsz
    ∧ min filesz.toNat memsz.toNat = size
  inside : size = 0 ∨ offset + size ≤ elfData.length

/-- The bytes of a segment. -/
def segmentOfFile (elfData : List U8) (offset size : Nat) : List U8 :=
  (elfData.drop offset).take size

theorem SegmentAt.length {p offset size : Nat}
    (h : SegmentAt elfData p offset size) :
    (segmentOfFile elfData offset size).length = size := by
  have hin := h.inside
  rw [segmentOfFile, List.length_take, List.length_drop]
  omega

-- ======================================================= inside the file

theorem byteAt_inside (elfData : List U8) {p : Nat}
    (h : p < elfData.length) : ∃ b, byteAt elfData p = .ok b := by
  rw [byteAt, List.getElem?_eq_getElem h]
  exact ⟨_, rfl⟩

/-- A byte that was read is one of the file. -/
theorem lt_of_byteAt {p : Nat} {b : U8} (h : byteAt elfData p = .ok b) :
    p < elfData.length := by
  by_contra hge
  rw [byteAt, List.getElem?_eq_none (Nat.not_lt.1 hge)] at h
  cases h

theorem wordAt_inside {p : Nat} (h : p + 4 ≤ elfData.length) :
    ∃ v, wordAt elfData p = .ok v := by
  obtain ⟨b0, h0⟩ := byteAt_inside elfData (show p < _ by omega)
  obtain ⟨b1, h1⟩ := byteAt_inside elfData (show p + 1 < _ by omega)
  obtain ⟨b2, h2⟩ := byteAt_inside elfData (show p + 2 < _ by omega)
  obtain ⟨b3, h3⟩ := byteAt_inside elfData (show p + 3 < _ by omega)
  exact ⟨b3 ++ b2 ++ b1 ++ b0, by simp only [wordAt, h0, h1, h2, h3]; rfl⟩

/-- And so is the last byte of a word. -/
theorem le_of_wordAt {p : Nat} {v : U32} (h : wordAt elfData p = .ok v) :
    p + 4 ≤ elfData.length := by
  obtain ⟨b0, -, h⟩ := bind_eq_ok.1 h
  obtain ⟨b1, -, h⟩ := bind_eq_ok.1 h
  obtain ⟨b2, -, h⟩ := bind_eq_ok.1 h
  obtain ⟨b3, hb3, -⟩ := bind_eq_ok.1 h
  exact lt_of_byteAt hb3

/-- The size of a segment: the smaller one of its two sizes. -/
theorem toNat_sectionSize (memsz filesz : U32) :
    (if memsz < filesz then memsz else filesz).toNat
      = min filesz.toNat memsz.toNat := by
  split
  · next hlt =>
      rw [BitVec.lt_def] at hlt
      omega
  · next hlt =>
      rw [BitVec.lt_def] at hlt
      omega

-- ================================================= the loop over a segment

/-- The loop over a segment that is inside the file ends, or runs out of
the buffer. -/
theorem flashLoop_run (offset count i pos : Nat) (buf : Buffer n)
    (hin : count = 0 ∨ offset + i + count ≤ s.elfData.length)
    (hpos : pos ≤ n) :
    s.flashLoop offset count i pos buf
      = if pos + count ≤ n then
          .ok (buf.overlay pos ((s.elfData.drop (offset + i)).take count),
            pos + count)
        else .error (.undefined .outOfBounds) := by
  induction count generalizing i pos buf with
  | zero =>
      rw [if_pos (by omega), List.take_zero, Buffer.overlay_nil]
      rfl
  | succ count ih =>
      have hlt : offset + i < s.elfData.length := by omega
      have hbyte : (Eval.toProc (byteAt s.elfData (offset + i)) : Proc U8)
          = .ok s.elfData[offset + i] := by
        rw [byteAt, List.getElem?_eq_getElem hlt]
        rfl
      show ((Eval.toProc (byteAt s.elfData (offset + i)) : Proc U8)
        >>= fun b => _) = _
      rw [hbyte, ok_bind]
      by_cases hroom : pos < n
      · rw [dif_pos hroom, ih _ _ _ (by omega) (by omega),
          List.drop_eq_getElem_cons hlt, List.take_succ_cons,
          Buffer.overlay_cons, ← Nat.add_assoc,
          Nat.add_right_comm pos 1 count]
        rfl
      · rw [dif_neg hroom, if_neg (by omega)]
        rfl

/-- A loop that has ended has read no byte outside the file. -/
theorem inside_of_flashLoop {offset count i pos : Nat} {buf : Buffer n}
    {r : Buffer n × Nat} (h : s.flashLoop offset count i pos buf = .ok r) :
    count = 0 ∨ offset + i + count ≤ s.elfData.length := by
  induction count generalizing i pos buf with
  | zero => exact .inl rfl
  | succ count ih =>
      obtain ⟨b, hb, h⟩ := bind_eq_ok.1 h
      have hlt := lt_of_byteAt (toProc_eq_ok.1 hb)
      split at h
      · have hrest := ih h
        omega
      · cases h

-- ========================================================== both segments

/-- A round of the outer loop: the header is read, then the bytes. -/
theorem flashSections_header {p offset size pos : Nat}
    {headers : List (Option Nat)} (buf : Buffer n)
    (hstarts : ∃ v, phOffset s.elfData p = .ok v ∧ v.toNat = offset)
    (hsizes : ∃ filesz memsz, phFilesz s.elfData p = .ok filesz
      ∧ phMemsz s.elfData p = .ok memsz
      ∧ min filesz.toNat memsz.toNat = size) :
    s.flashSections (some p :: headers) pos buf
      = s.flashLoop offset size 0 pos buf >>= fun r =>
          s.flashSections headers r.2 r.1 := by
  obtain ⟨v, hv, rfl⟩ := hstarts
  obtain ⟨filesz, memsz, hfilesz, hmemsz, rfl⟩ := hsizes
  rw [flashSections, dereference, pure_eq_ok, ok_bind, hmemsz]
  show ((phFilesz s.elfData p : Proc U32) >>= _) = _
  rw [hfilesz]
  show ((phOffset s.elfData p : Proc U32) >>= _) = _
  rw [hv, ← toNat_sectionSize]
  rfl

/-- A segment inside the file is copied, or the buffer ends before it
does. -/
theorem flashSections_cons {p offset size pos : Nat}
    {headers : List (Option Nat)} (buf : Buffer n)
    (h : SegmentAt s.elfData p offset size) (hpos : pos ≤ n) :
    s.flashSections (some p :: headers) pos buf
      = if pos + size ≤ n then
          s.flashSections headers (pos + size)
            (buf.overlay pos (segmentOfFile s.elfData offset size))
        else .error (.undefined .outOfBounds) := by
  rw [flashSections_header buf h.starts h.sizes,
    flashLoop_run offset size 0 pos buf h.inside hpos]
  by_cases hroom : pos + size ≤ n
  · rw [if_pos hroom, if_pos hroom]
    rfl
  · rw [if_neg hroom, if_neg hroom]
    rfl

/-- A round that goes on has copied a segment inside the file. -/
theorem segmentAt_of_flashSections {header : Option Nat}
    {headers : List (Option Nat)} {pos : Nat} {buf firmware : Buffer n}
    (h : s.flashSections (header :: headers) pos buf = .ok firmware) :
    ∃ p offset size, header = some p
      ∧ SegmentAt s.elfData p offset size := by
  obtain ⟨p, hp, h⟩ := bind_eq_ok.1 h
  obtain ⟨memsz, hmemsz, h⟩ := bind_eq_ok.1 h
  obtain ⟨filesz, hfilesz, h⟩ := bind_eq_ok.1 h
  obtain ⟨offset, hoffset, h⟩ := bind_eq_ok.1 h
  obtain ⟨r, hloop, -⟩ := bind_eq_ok.1 h
  have hheader : header = some p := by
    cases header with
    | none => cases hp
    | some q => exact congrArg some (Except.ok.inj hp)
  have hin := inside_of_flashLoop hloop
  rw [toNat_sectionSize] at hin
  exact ⟨p, offset.toNat, _, hheader,
    ⟨offset, toProc_eq_ok.1 hoffset, rfl⟩,
    ⟨filesz, memsz, toProc_eq_ok.1 hfilesz, toProc_eq_ok.1 hmemsz, rfl⟩,
    hin⟩

section

variable {p q romOffset f ramOffset d : Nat}

/-- What `flashRom` does with two segments inside the file. -/
theorem flashRom_run (buf : Buffer n) (hromHeader : s.romHeader = some p)
    (hramHeader : s.ramHeader = some q)
    (hrom : SegmentAt s.elfData p romOffset f)
    (hram : SegmentAt s.elfData q ramOffset d) :
    s.flashRom buf
      = if f + d ≤ n then .ok (buf.overlay 0
          (segmentOfFile s.elfData romOffset f
            ++ segmentOfFile s.elfData ramOffset d))
        else .error (.undefined .outOfBounds) := by
  rw [flashRom, hromHeader, hramHeader,
    flashSections_cons buf hrom (Nat.zero_le n), Nat.zero_add]
  by_cases hf : f ≤ n
  · rw [if_pos hf, flashSections_cons _ hram hf]
    by_cases hfd : f + d ≤ n
    · rw [if_pos hfd, if_pos hfd, ← Buffer.overlay_append, hrom.length,
        Nat.zero_add]
      rfl
    · rw [if_neg hfd, if_neg hfd]
  · rw [if_neg hf, if_neg (by omega)]

end

/-- A `flashRom` that ends has found two segments inside the file, and
room for both of them. -/
theorem flashRom_ok {buf firmware : Buffer n}
    (h : s.flashRom buf = .ok firmware) :
    ∃ p romOffset f q ramOffset d, s.romHeader = some p
      ∧ SegmentAt s.elfData p romOffset f ∧ s.ramHeader = some q
      ∧ SegmentAt s.elfData q ramOffset d ∧ f + d ≤ n
      ∧ firmware = buf.overlay 0 (segmentOfFile s.elfData romOffset f
        ++ segmentOfFile s.elfData ramOffset d) := by
  obtain ⟨p, romOffset, f, hp, hrom⟩ := segmentAt_of_flashSections h
  have hrest := h
  rw [flashRom, hp, flashSections_cons buf hrom (Nat.zero_le n)] at hrest
  split at hrest
  · obtain ⟨q, ramOffset, d, hq, hram⟩ := segmentAt_of_flashSections hrest
    rw [flashRom_run buf hp hq hrom hram] at h
    split at h
    · next hfits =>
      exact ⟨p, romOffset, f, q, ramOffset, d, hp, hrom, hq, hram, hfits,
        (Except.ok.inj h).symm⟩
    · cases h
  · cases hrest

end T89Emu
