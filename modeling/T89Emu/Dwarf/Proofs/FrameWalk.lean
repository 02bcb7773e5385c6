/-
The walk over .debug_frame finds the entries of a section.

An entry is read at its offset: the numbers of its head, and a pointer to
what is left of it behind the head, with the length of that. The length is
found by subtracting positions that count from the section's start and
from behind the length field (`blockSize`); at the section's end the
pointer is null (`pointerTo`). `parseEntry_raw` is one round, and
`walk_raw` the loop, by induction on the entries in front of the cursor.

The parser takes the register of the return address for a number in every
version, so all of this is about entries where it looks like one
(`RawEntry.Narrow`).
-/
import T89Emu.Dwarf.CallFrameInfo
import T89Emu.Dwarf.Proofs.DataStream
import T89Emu.Lib.Dwarf.FrameEntry

namespace T89Emu.Dwarf

open Cpp Decode Bytes CallFrame

-- ===================================================== places in a section

/-- A word at the cursor is read, and skipped. -/
theorem word_run (v : U32) {s : DataStream} {t : List U8}
    (hs : s.rest = wordBytes v ++ t) :
    decodeUInt32 s = .ok (v, s.skip 4) := reads_uint32 v s t hs

/-- The pointer to bytes of the section, other bytes of the file behind
it: null at the section's end. -/
def pointerTo (inSection behind : List U8) : Option (List U8) :=
  if inSection = [] then none else some (inSection ++ behind)

/-- A place in the section with these bytes of it in front, and behind
them the rest of the file. -/
structure At (s : DataStream) (offset : Nat) (inSection behind : List U8) :
    Prop where
  data : s.data.isSome = true
  index : s.index = offset
  rest : s.rest = inSection ++ behind
  streamLen : s.streamLen = offset + inSection.length

/-- What is in front of the cursor comes first. -/
theorem At.front {s : DataStream} {offset : Nat} {w v behind : List U8}
    (h : At s offset (w ++ v) behind) : s.rest = w ++ (v ++ behind) := by
  rw [h.rest, List.append_assoc]

/-- Once that is skipped, the cursor is behind it. -/
theorem At.skip {s : DataStream} {offset n : Nat} {w v behind : List U8}
    (h : At s offset (w ++ v) behind) (hn : w.length = n) :
    At (s.skip n) (offset + n) v behind where
  data := h.data
  index := by rw [← h.index]; rfl
  rest := rest_skip h.front hn
  streamLen := by
    have hlen := h.streamLen
    rw [List.length_append] at hlen
    show s.streamLen = _
    omega

/-- In front of bytes the stream goes on. -/
theorem At.streamable {s : DataStream} {offset : Nat} {w behind : List U8}
    (h : At s offset w behind) (hw : 0 < w.length) :
    s.isStreamable = true := by
  have hlen := h.streamLen
  have hindex := h.index
  exact (isStreamable_iff h.data).2 (by omega)

/-- At its end it does not. -/
theorem At.not_streamable {s : DataStream} {offset : Nat}
    {behind : List U8} (h : At s offset [] behind) :
    s.isStreamable = false := by
  have hlen := h.streamLen
  have hindex := h.index
  rw [List.length_nil] at hlen
  exact (isStreamable_eq_false_iff h.data).2 (by omega)

/-- `getData` at the cursor. -/
theorem At.getData {s : DataStream} {offset : Nat} {w behind : List U8}
    (h : At s offset w behind) :
    s.getData s.getIndex = pointerTo w behind := by
  have hrest : (s.data.getD []).drop s.index = w ++ behind := h.rest
  have hlen := h.streamLen
  have hindex := h.index
  simp only [DataStream.getData, DataStream.getIndex, pointerTo, hrest]
  cases w with
  | nil =>
      rw [if_neg (by simp at hlen; omega), if_pos rfl]
  | cons b w =>
      rw [if_pos (by simp at hlen; omega), if_neg (by simp)]

/-- The length of the instructions is what is left of an entry behind its
length, its mark and its head. -/
theorem blockSize {offset head instructions : Nat}
    (h : offset + 8 + head + instructions < 2 ^ 32) :
    getLen (BitVec.ofNat 32 (4 + head + instructions))
        - (BitVec.ofNat 64 (offset + 8 + head)
          - (BitVec.ofNat 32 offset).setWidth 64)
      = BitVec.ofNat 64 instructions := by
  have hdiff : BitVec.ofNat 64 (offset + 8 + head)
        - (BitVec.ofNat 32 offset).setWidth 64
      = BitVec.ofNat 64 (8 + head) := by
    apply BitVec.eq_of_toNat_eq
    simp only [BitVec.toNat_sub, BitVec.toNat_setWidth, BitVec.toNat_ofNat]
    omega
  have hfour : (4 : U64).toNat = 4 := rfl
  rw [hdiff]
  apply BitVec.eq_of_toNat_eq
  simp only [getLen, BitVec.toNat_sub, BitVec.toNat_add, hfour,
    BitVec.toNat_setWidth, BitVec.toNat_ofNat]
  omega

/-- The augmentation is empty. -/
theorem augmentation_run {s : DataStream} {t : List U8}
    (hs : s.rest = 0#8 :: t) :
    decodeAugmentation s = .ok ([], s.skip 1) := by
  simp only [decodeAugmentation, hs]
  rfl

-- ============================================================== one round

/-- The decoders deliver every number of the head. -/
def RawReadable : RawEntry → Prop
  | .cie c => c.codeAlignment.size ≤ 5 ∧ LebDefined c.dataAlignment
      ∧ c.returnAddress.encoding.size ≤ 5
  | .fde _ => True

instance : (e : RawEntry) → Decidable (RawReadable e)
  | .cie _ => inferInstanceAs (Decidable (_ ∧ _ ∧ _))
  | .fde _ => isTrue trivial

/-- What is recorded of a common entry, `following` being the rest of the
section. -/
def recordedCie (c : RawCie) (following behind : List U8) :
    CommonInfoEntry where
  length := BitVec.ofNat 32 (RawEntry.cie c).body.length
  cieId := 0xffffffff
  version := c.version
  augmentation := []
  codeAlignmentFactor := ulebValue c.codeAlignment
  dataAlignmentFactor := slebValue c.dataAlignment
  returnAddressRegister := ulebValue c.returnAddress.encoding
  initialInstructions := pointerTo (c.block ++ following) behind
  instructionsBlockSize := BitVec.ofNat 64 c.block.length

/-- What is recorded of a frame entry. -/
def recordedFde (f : RawFde) (following behind : List U8) :
    FrameDescriptEntry where
  length := BitVec.ofNat 32 (RawEntry.fde f).body.length
  ciePointer := f.ciePointer
  initialLocation := f.initialLocation
  addressRange := f.addressRange
  instructions := pointerTo (f.block ++ following) behind
  instructionsBlockSize := BitVec.ofNat 64 f.block.length

/-- A common entry is parsed from its version on; its fields are numbers
that the decoders deliver or not. -/
theorem parseCie_raw (c : RawCie) (hnarrow : c.returnAddress.Narrow)
    {s : DataStream} {offset : Nat} {following behind : List U8}
    (hat : At s (offset + 8) (c.head ++ (c.block ++ following)) behind)
    (hlen : offset + 4 + (RawEntry.cie c).body.length < 2 ^ 32) :
    parseCie (BitVec.ofNat 32 (RawEntry.cie c).body.length) 0xffffffff
        (BitVec.ofNat 32 offset) s
      = if RawReadable (.cie c) then
          .ok (recordedCie c following behind, s.skip c.head.length)
        else .error (.undefined .shiftCount) := by
  have hbody : (RawEntry.cie c).body.length
      = 4 + c.head.length + c.block.length := (RawEntry.cie c).length_body
  have hbytes := ReturnAddress.encoding_bytes hnarrow
  have hhead : c.head.length = 1 + (1 + (c.codeAlignment.size
      + (c.dataAlignment.size + c.returnAddress.encoding.size))) := by
    simp [RawCie.head, ← hbytes, Nat.add_comm 1]
  unfold RawCie.head at hat
  rw [← hbytes] at hat
  simp only [List.append_assoc] at hat
  have hat₁ := hat.skip (n := 1) rfl
  have hat₂ := hat₁.skip (n := 1) rfl
  have hat₃ := hat₂.skip (Leb128.length_bytes _)
  have hat₄ := hat₃.skip (Leb128.length_bytes _)
  have hat₅ := hat₄.skip (Leb128.length_bytes _)
  have hskip : (((((s.skip 1).skip 1).skip c.codeAlignment.size).skip
      c.dataAlignment.size).skip c.returnAddress.encoding.size)
        = s.skip c.head.length := by
    rw [hhead]
    simp only [DataStream.skip, Nat.add_assoc]
  have hindex : (s.skip c.head.length).index
      = offset + 8 + c.head.length := by
    rw [← hskip, hat₅.index]
    omega
  have hsize : getLen (BitVec.ofNat 32 (RawEntry.cie c).body.length)
      - (BitVec.ofNat 64 (offset + 8 + c.head.length)
        - (BitVec.ofNat 32 offset).setWidth 64)
      = BitVec.ofNat 64 c.block.length := by
    rw [hbody] at hlen ⊢
    exact blockSize (by omega)
  have hversion : decodeUInt8 s = .ok (c.version, s.skip 1) :=
    reads_uint8 c.version s _ hat.front
  have haugmentation := augmentation_run hat₁.front
  have hcode := uleb_all c.codeAlignment hat₂.front
  have hdata := sleb_run c.dataAlignment hat₃.front
  have hreturn := uleb_all c.returnAddress.encoding hat₄.front
  show (decodeUInt8 s >>= _) = _
  rw [hversion, ok_bind]
  show (decodeAugmentation (s.skip 1) >>= _) = _
  rw [haugmentation, ok_bind]
  show (decodeULeb128 ((s.skip 1).skip 1) >>= _) = _
  rw [hcode]
  by_cases h₁ : c.codeAlignment.size ≤ 5
  · rw [if_pos h₁, ok_bind]
    show (decodeLeb128 (((s.skip 1).skip 1).skip _) >>= _) = _
    rw [hdata]
    by_cases h₂ : LebDefined c.dataAlignment
    · rw [if_pos h₂, ok_bind]
      show (decodeULeb128 ((((s.skip 1).skip 1).skip _).skip _) >>= _) = _
      rw [hreturn]
      by_cases h₃ : c.returnAddress.encoding.size ≤ 5
      · rw [if_pos h₃, if_pos ⟨h₁, h₂, h₃⟩, ok_bind]
        refine congrArg Except.ok (Prod.ext ?_ hskip)
        show CommonInfoEntry.mk _ _ _ _ _ _ _ _ _ = recordedCie ..
        rw [hat₅.getData, hskip, indexOf, DataStream.getIndex, hindex, hsize]
        rfl
      · rw [if_neg h₃, if_neg fun h => h₃ h.2.2]
        rfl
    · rw [if_neg h₂, if_neg fun h => h₂ h.2.1]
      rfl
  · rw [if_neg h₁, if_neg fun h => h₁ h.1]
    rfl

/-- The position of an entry, found from the one behind its mark. -/
theorem start_index (offset : Nat) :
    (BitVec.ofNat 64 (offset + 8) - 8#64).setWidth 32
      = BitVec.ofNat 32 offset := by
  apply BitVec.eq_of_toNat_eq
  simp only [BitVec.toNat_sub, BitVec.toNat_setWidth, BitVec.toNat_ofNat]
  omega

/-- A frame entry is parsed from its location on. -/
theorem parseFde_raw (f : RawFde) {s : DataStream} {offset : Nat}
    {following behind : List U8}
    (hat : At s (offset + 8) (f.head ++ (f.block ++ following)) behind)
    (hlen : offset + 4 + (RawEntry.fde f).body.length < 2 ^ 32) :
    parseFde (BitVec.ofNat 32 (RawEntry.fde f).body.length) f.ciePointer s
      = .ok (recordedFde f following behind, s.skip f.head.length) := by
  have hbody : (RawEntry.fde f).body.length
      = 4 + f.head.length + f.block.length := (RawEntry.fde f).length_body
  unfold RawFde.head at hat
  simp only [List.append_assoc] at hat
  have hat₁ := hat.skip (n := 4) rfl
  have hat₂ := hat₁.skip (n := 4) rfl
  have hsize : getLen (BitVec.ofNat 32 (RawEntry.fde f).body.length)
      - (BitVec.ofNat 64 (offset + 8 + f.head.length)
        - (BitVec.ofNat 32 offset).setWidth 64)
      = BitVec.ofNat 64 f.block.length := by
    rw [hbody]
    exact blockSize (by omega)
  show (decodeUInt32 s >>= _) = _
  rw [word_run f.initialLocation hat.front, ok_bind]
  show (decodeUInt32 (s.skip 4) >>= _) = _
  rw [word_run f.addressRange hat₁.front, ok_bind]
  refine congrArg Except.ok (Prod.ext ?_ ?_)
  · show FrameDescriptEntry.mk _ _ _ _ _ _ = recordedFde ..
    have hindex : ((s.skip 4).skip 4).index = offset + 8 + f.head.length :=
      hat₂.index
    rw [hat₂.getData, indexOf, indexOf, DataStream.getIndex,
      DataStream.getIndex, hindex, hat.index]
    show FrameDescriptEntry.mk _ _ _ _ _ (getLen _ - (_
      - ((BitVec.ofNat 64 (offset + 8) - 8#64).setWidth 32).setWidth 64))
      = _
    rw [start_index, hsize]
    rfl
  · rfl

/-- What is recorded of an entry, its offset being this one. -/
def record (info : CallFrameInfo) (offset : Nat)
    (following behind : List U8) : RawEntry → CallFrameInfo
  | .cie c => info.insertCie (BitVec.ofNat 64 offset)
      (recordedCie c following behind)
  | .fde f =>
      { info with fdes := info.fdes ++ [recordedFde f following behind] }

/-- A length that is counted with its own four bytes. -/
theorem toNat_getLen (length : U32) :
    (getLen length).toNat = 4 + length.toNat := by
  have hfour : (4 : U64).toNat = 4 := rfl
  have hlength := length.isLt
  simp only [getLen, BitVec.toNat_add, hfour, BitVec.toNat_setWidth]
  omega

/-- What a round does behind the two words at the start of an entry. -/
def parseBody (info : CallFrameInfo) (length identifier : U32) :
    Decoder CallFrameInfo :=
  if identifier = 0xffffffff#32 then do
    let cieOffset := (indexOf (← get) - 8).setWidth 32
    let cie ← parseCie length identifier cieOffset
    pure (info.insertCie (cieOffset.setWidth 64) cie)
  else do
    let fde ← parseFde length identifier
    pure { info with fdes := info.fdes ++ [fde] }

/-- The two words are read, then the rest, and the cursor is set. -/
theorem parseEntry_eq (info : CallFrameInfo) (s : DataStream) :
    parseEntry info s = decodeUInt32 s >>= fun r =>
      decodeUInt32 r.2 >>= fun q => parseBody info r.1 q.1 q.2 >>= fun p =>
        .ok (p.1, p.2.setOffset (s.getIndex + (getLen r.1).toNat)) := by
  show (decodeUInt32 s >>= _) = _
  refine congrArg _ (funext fun r => ?_)
  show (decodeUInt32 r.2 >>= _) = _
  refine congrArg _ (funext fun q => ?_)
  show ((if q.1 = 0xffffffff#32 then _ else _
    : Decoder CallFrameInfo) q.2) = _
  unfold parseBody
  split
  · show (parseCie _ _ _ q.2 >>= _) = (parseCie _ _ _ q.2 >>= _) >>= _
    cases parseCie r.1 q.1 ((indexOf q.2 - 8).setWidth 32) q.2 <;> rfl
  · show (parseFde _ _ q.2 >>= _) = (parseFde _ _ q.2 >>= _) >>= _
    cases parseFde r.1 q.1 q.2 <;> rfl

/-- The mark tells the two apart. -/
theorem parseBody_raw (info : CallFrameInfo) (e : RawEntry)
    (hnarrow : e.Narrow) {s : DataStream} {offset : Nat}
    {following behind : List U8}
    (hat : At s (offset + 8) (e.head ++ (e.block ++ following)) behind)
    (hlen : offset + 4 + e.body.length < 2 ^ 32) :
    parseBody info (BitVec.ofNat 32 e.body.length) e.mark s
      = if RawReadable e then
          .ok (record info offset following behind e, s.skip e.head.length)
        else .error (.undefined .shiftCount) := by
  cases e with
  | cie c =>
      have hstart : (indexOf s - 8).setWidth 32 = BitVec.ofNat 32 offset := by
        rw [indexOf, DataStream.getIndex, hat.index]
        exact start_index offset
      have hkey : (BitVec.ofNat 32 offset).setWidth 64
          = BitVec.ofNat 64 offset := by
        apply BitVec.eq_of_toNat_eq
        simp only [BitVec.toNat_setWidth, BitVec.toNat_ofNat]
        omega
      have hmark : (RawEntry.cie c).mark = 0xffffffff#32 := rfl
      rw [parseBody, if_pos hmark]
      show (parseCie _ 0xffffffff ((indexOf s - 8).setWidth 32) s >>= _) = _
      rw [hstart, parseCie_raw c hnarrow hat hlen]
      by_cases hread : RawReadable (.cie c)
      · rw [if_pos hread, if_pos hread, record, ← hkey, ← hstart]
        rfl
      · rw [if_neg hread, if_neg hread]
        rfl
  | fde f =>
      have hmark : ¬ (RawEntry.fde f).mark = 0xffffffff#32 := f.isFde
      rw [parseBody, if_neg hmark]
      show (parseFde _ f.ciePointer s >>= _) = _
      rw [parseFde_raw f hat hlen,
        if_pos (show RawReadable (.fde f) from trivial)]
      rfl

/-- The two words at the start of an entry, its head, and its block. -/
theorem bytes_append (e : RawEntry) (following : List U8) :
    e.bytes ++ following
      = wordBytes (BitVec.ofNat 32 e.body.length) ++ (wordBytes e.mark
        ++ (e.head ++ (e.block ++ following))) := by
  simp [RawEntry.bytes, RawEntry.body]

/-- A round of the walk. -/
theorem parseEntry_raw (info : CallFrameInfo) (e : RawEntry)
    (hnarrow : e.Narrow) {s : DataStream} {offset : Nat}
    {following behind : List U8}
    (hat : At s offset (e.bytes ++ following) behind)
    (hlen : offset + e.bytes.length < 2 ^ 32) :
    parseEntry info s
      = if RawReadable e then
          .ok (record info offset following behind e, s.skip e.bytes.length)
        else .error (.undefined .shiftCount) := by
  rw [RawEntry.length_bytes] at hlen
  rw [bytes_append] at hat
  have hat₁ := hat.skip (n := 4) rfl
  have hat₂ := hat₁.skip (n := 4) rfl
  rw [parseEntry_eq, word_run _ hat.front, ok_bind,
    word_run _ hat₁.front, ok_bind,
    parseBody_raw info e hnarrow hat₂ (by omega)]
  -- where the cursor is set behind the entry
  have hindex : (getLen (BitVec.ofNat 32 e.body.length)).toNat
      = e.bytes.length := by
    rw [toNat_getLen, RawEntry.length_bytes, BitVec.toNat_ofNat]
    omega
  by_cases hread : RawReadable e
  · rw [if_pos hread, if_pos hread, ok_bind, hindex]
    rfl
  · rw [if_neg hread, if_neg hread]
    rfl

-- ================================================================ the walk

/-- What is recorded of the entries from an offset on. -/
def recorded (behind : List U8) :
    Nat → List RawEntry → CallFrameInfo → CallFrameInfo
  | _, [], info => info
  | offset, e :: entries, info =>
      recorded behind (offset + e.bytes.length) entries
        (record info offset (rawBytes entries) behind e)

/-- The loop at the end of the section. -/
theorem walk_end (fuel : Nat) (info : CallFrameInfo) {s : DataStream}
    (hs : s.isStreamable = false) :
    generateFrameInfo (fuel + 1) info s = .ok (info, s) := by
  show ((if s.isStreamable then _ else _ : Decoder CallFrameInfo)) s = _
  rw [if_neg (by rw [hs]; simp)]
  rfl

/-- And in front of it. -/
theorem walk_step (fuel : Nat) (info : CallFrameInfo) {s : DataStream}
    (hs : s.isStreamable = true) :
    generateFrameInfo (fuel + 1) info s
      = parseEntry info s >>= fun r => generateFrameInfo fuel r.1 r.2 := by
  show ((if s.isStreamable then _ else _ : Decoder CallFrameInfo)) s = _
  rw [if_pos hs]
  rfl

/-- The stream of a section, with its cursor at the start. -/
def sectionStream (entries : List RawEntry) (behind : List U8) :
    DataStream :=
  ⟨some (rawBytes entries ++ behind), 0, (rawBytes entries).length⟩

/-- The whole section is in front of it. -/
theorem sectionStream_at (entries : List RawEntry) (behind : List U8) :
    At (sectionStream entries behind) 0 (rawBytes entries) behind :=
  ⟨rfl, rfl, rfl, (Nat.zero_add _).symm⟩

/-- The walk records every entry that lies in front of it, and stops at
the end of the section. -/
theorem walk_raw (entries : List RawEntry) (info : CallFrameInfo)
    (hnarrow : ∀ e ∈ entries, e.Narrow) {s : DataStream}
    {offset fuel : Nat} {behind : List U8}
    (hat : At s offset (rawBytes entries) behind)
    (hlen : offset + (rawBytes entries).length < 2 ^ 32)
    (hfuel : (rawBytes entries).length < fuel) :
    generateFrameInfo fuel info s
      = if ∀ e ∈ entries, RawReadable e then
          .ok (recorded behind offset entries info,
            s.skip (rawBytes entries).length)
        else .error (.undefined .shiftCount) := by
  induction entries generalizing info s offset fuel with
  | nil =>
      obtain ⟨fuel, rfl⟩ : ∃ k, fuel = k + 1 := ⟨fuel - 1, by omega⟩
      rw [if_pos (by simp)]
      exact walk_end fuel info hat.not_streamable
  | cons e entries ih =>
      obtain ⟨fuel, rfl⟩ : ∃ k, fuel = k + 1 := ⟨fuel - 1, by omega⟩
      have hpos := e.length_bytes
      obtain ⟨hfirst, hothers⟩ := List.forall_mem_cons.1 hnarrow
      rw [rawBytes_cons] at hat
      rw [rawBytes_cons, List.length_append] at hlen hfuel
      rw [walk_step fuel info
        (hat.streamable (by rw [List.length_append]; omega)),
        parseEntry_raw info e hfirst hat (by omega)]
      by_cases hread : RawReadable e
      · rw [if_pos hread, ok_bind,
          ih (record info offset (rawBytes entries) behind e) hothers
            (hat.skip rfl) (by omega)
            (show (rawBytes entries).length < fuel by omega)]
        simp only [List.forall_mem_cons, hread, true_and, rawBytes_cons,
          List.length_append, DataStream.skip, Nat.add_assoc]
        rfl
      · rw [if_neg hread, if_neg fun h => hread (h e List.mem_cons_self)]
        rfl

/-- The constructor, on a section of entries. -/
theorem callFrameInfo_raw (entries : List RawEntry)
    (hnarrow : ∀ e ∈ entries, e.Narrow) (behind : List U8)
    (hlen : (rawBytes entries).length < 2 ^ 32) :
    CallFrameInfo.new (rawBytes entries ++ behind)
        (rawBytes entries).length
      = if ∀ e ∈ entries, RawReadable e then
          .ok (recorded behind 0 entries ⟨[], []⟩)
        else .error (.undefined .shiftCount) := by
  have hrun := walk_raw entries ⟨[], []⟩ hnarrow
    (sectionStream_at entries behind) (by omega)
    (show (rawBytes entries).length
        < (sectionStream entries behind).rest.length + 1 by
      rw [(sectionStream_at entries behind).rest, List.length_append]
      omega)
  show (generateFrameInfo ((sectionStream entries behind).rest.length + 1)
    ⟨[], []⟩ (sectionStream entries behind) >>= _) = _
  rw [hrun]
  split <;> rfl

-- ====================================================== what was recorded

/-- The frame entries are recorded in their order. -/
theorem recorded_fdes (behind : List U8) (entries : List RawEntry)
    (offset : Nat) (info : CallFrameInfo) :
    ∃ fdes, (recorded behind offset entries info).fdes = info.fdes ++ fdes
      ∧ List.Forall₂ (fun f p => ∃ following,
          p = recordedFde f following behind) (rawFdesOf entries) fdes := by
  induction entries generalizing offset info with
  | nil => exact ⟨[], by simp [recorded], .nil⟩
  | cons e entries ih =>
      obtain ⟨fdes, hfdes, hrecorded⟩ := ih (offset + e.bytes.length)
        (record info offset (rawBytes entries) behind e)
      cases e with
      | cie c =>
          refine ⟨fdes, hfdes.trans ?_, hrecorded⟩
          simp only [record, CallFrameInfo.insertCie]
          split <;> rfl
      | fde f =>
          exact ⟨_ :: fdes, hfdes.trans (List.append_assoc ..),
            .cons ⟨_, rfl⟩ hrecorded⟩

/-- An entry that is inserted does not replace one that is there. -/
theorem insertCie_lookup (info : CallFrameInfo) (offset key : U64)
    (cie : CommonInfoEntry) :
    (info.insertCie offset cie).cies.lookup key
      = (info.cies.lookup key).or
          (if key = offset then some cie else none) := by
  unfold CallFrameInfo.insertCie
  cases hold : info.cies.lookup offset with
  | some old =>
      by_cases hkey : key = offset
      · subst hkey
        simp [hold]
      · simp [hkey]
  | none =>
      show List.lookup key (info.cies ++ [(offset, cie)]) = _
      rw [List.lookup_append]
      by_cases hkey : key = offset
      · simp [hkey]
      · rw [List.lookup_cons, beq_false_of_ne hkey, if_neg hkey]
        rfl

/-- The common entries are recorded under their offsets, those that were
there before being found first. -/
theorem recorded_cies (behind : List U8) (entries : List RawEntry)
    (offset : Nat) (info : CallFrameInfo) {key : Nat} (hkey : key < 2 ^ 64)
    (hlen : offset + (rawBytes entries).length < 2 ^ 64) :
    (recorded behind offset entries info).cies.lookup (BitVec.ofNat 64 key)
      = (info.cies.lookup (BitVec.ofNat 64 key)).or
          ((rawCieAt key offset entries).map fun found =>
            recordedCie found.1 (rawBytes found.2) behind) := by
  induction entries generalizing offset info with
  | nil => simp [recorded, rawCieAt]
  | cons e entries ih =>
      rw [rawBytes_cons, List.length_append] at hlen
      have htail := ih (offset + e.bytes.length)
        (record info offset (rawBytes entries) behind e) (by omega)
      cases e with
      | fde f => exact htail
      | cie c =>
          rw [record, insertCie_lookup, Option.or_assoc] at htail
          refine htail.trans (congrArg _ ?_)
          have hsame : BitVec.ofNat 64 key = BitVec.ofNat 64 offset
              ↔ offset = key := by
            rw [← BitVec.toNat_inj, BitVec.toNat_ofNat, BitVec.toNat_ofNat]
            omega
          by_cases hoffset : offset = key
          · rw [if_pos (hsame.2 hoffset), rawCieAt, if_pos hoffset]
            rfl
          · rw [if_neg fun h => hoffset (hsame.1 h), rawCieAt,
              if_neg hoffset]
            rfl

end T89Emu.Dwarf
