/-
The entries of a section .debug_frame as the parser sees them.

The parser knows of no common entries of version 4: it takes their first
numbers for others, and what is left of them for instructions (`seen`).
Seen so, a section is one of entries with blocks of bytes (`rawOf`), which
the walk records (`walk_raw`): what it keeps of the entries follows from
that.
-/
import T89Emu.Dwarf.Proofs.FrameWalk

namespace T89Emu.Dwarf

open Cpp Decode Bytes CallFrame

-- ============================================================ common entries

/-- What is taken for the numbers of a common entry and for its
instructions. -/
structure Seen where
  codeAlignment : Leb128
  dataAlignment : Leb128
  returnAddressRegister : Leb128
  block : List U8

/-- The sizes that version 4 writes down are taken for the alignments,
and what follows them accordingly. -/
def seen (c : Cie) : Seen :=
  if c.version = 4 then
    ⟨.single 4, .single 0, c.codeAlignment, c.dataAlignment.bytes
      ++ (c.returnAddressRegister.bytes ++ CallFrame.bytes c.instructions)⟩
  else
    ⟨c.codeAlignment, c.dataAlignment, c.returnAddressRegister,
      CallFrame.bytes c.instructions⟩

/-- The bytes of a common entry are those of what is seen in it. -/
theorem seen_bytes (c : Cie) :
    c.head ++ CallFrame.bytes c.instructions
      = [c.version] ++ ([0] ++ ((seen c).codeAlignment.bytes
        ++ ((seen c).dataAlignment.bytes
          ++ ((seen c).returnAddressRegister.bytes ++ (seen c).block)))) := by
  by_cases hversion : c.version = 4
  · rw [Cie.head, Cie.sizes, seen, if_pos hversion, if_pos hversion]
    simp [Leb128.bytes, Leb128.single, Leb128.byte]
  · rw [Cie.head, Cie.sizes, seen, if_neg hversion, if_neg hversion]
    simp

/-- The decoders deliver every number of the head. -/
def Readable : Entry → Prop
  | .cie c => (seen c).codeAlignment.size ≤ 5
      ∧ LebDefined (seen c).dataAlignment
      ∧ (seen c).returnAddressRegister.size ≤ 5
  | .fde _ => True

instance : (e : Entry) → Decidable (Readable e)
  | .cie _ => inferInstanceAs (Decidable (_ ∧ _ ∧ _))
  | .fde _ => isTrue trivial

/-- What is kept of a common entry, `following` being the rest of the
section. -/
def parsedCie (c : Cie) (following behind : List U8) :
    CommonInfoEntry where
  length := BitVec.ofNat 32 (Entry.cie c).body.length
  cieId := 0xffffffff
  version := c.version
  augmentation := []
  codeAlignmentFactor := ulebValue (seen c).codeAlignment
  dataAlignmentFactor := slebValue (seen c).dataAlignment
  returnAddressRegister := ulebValue (seen c).returnAddressRegister
  initialInstructions := pointerTo ((seen c).block ++ following) behind
  instructionsBlockSize := BitVec.ofNat 64 (seen c).block.length

/-- What is kept of a frame entry. -/
def parsedFde (f : Fde) (following behind : List U8) :
    FrameDescriptEntry where
  length := BitVec.ofNat 32 (Entry.fde f).body.length
  ciePointer := f.ciePointer
  initialLocation := f.initialLocation
  addressRange := f.addressRange
  instructions :=
    pointerTo (CallFrame.bytes f.instructions ++ following) behind
  instructionsBlockSize :=
    BitVec.ofNat 64 (CallFrame.bytes f.instructions).length

-- ================================================================ the walk

/-- What is kept of an entry, its offset being this one. -/
def keep (info : CallFrameInfo) (offset : Nat)
    (following behind : List U8) : Entry → CallFrameInfo
  | .cie c => info.insertCie (BitVec.ofNat 64 offset)
      (parsedCie c following behind)
  | .fde f =>
      { info with fdes := info.fdes ++ [parsedFde f following behind] }

/-- What is kept of the entries from an offset on. -/
def kept (behind : List U8) :
    Nat → List Entry → CallFrameInfo → CallFrameInfo
  | _, [], info => info
  | offset, e :: entries, info =>
      kept behind (offset + e.bytes.length) entries
        (keep info offset (sectionBytes entries) behind e)

-- ========================================================= as bytes

/-- The entry that the parser sees: the register of the return address is
a number to it in every version. -/
def rawCie (c : Cie) : RawCie :=
  ⟨c.version, (seen c).codeAlignment, (seen c).dataAlignment,
    .number (seen c).returnAddressRegister, (seen c).block⟩

def rawFde (f : Fde) : RawFde :=
  ⟨f.ciePointer, f.initialLocation, f.addressRange,
    CallFrame.bytes f.instructions, f.isFde⟩

def rawOf : Entry → RawEntry
  | .cie c => .cie (rawCie c)
  | .fde f => .fde (rawFde f)

/-- The register of a version 1 entry is one byte, read as it is. -/
theorem rawOf_narrow (e : Entry) : (rawOf e).Narrow := by
  cases e with
  | cie c => trivial
  | fde f => trivial

/-- The same bytes, split into a head and a block in another way. -/
theorem rawOf_body (e : Entry) : (rawOf e).body = e.body := by
  cases e with
  | fde f => rfl
  | cie c =>
      show wordBytes 0xffffffff ++ (rawCie c).head ++ (seen c).block
        = wordBytes 0xffffffff ++ c.head ++ CallFrame.bytes c.instructions
      rw [List.append_assoc, List.append_assoc, seen_bytes]
      simp [rawCie, RawCie.head, ReturnAddress.bytes]

/-- What is seen is as long as what is there. -/
theorem length_seen (c : Cie) :
    (Entry.cie c).body.length
      = 4 + (rawCie c).head.length + (seen c).block.length := by
  rw [← rawOf_body]
  exact (rawOf (.cie c)).length_body

/-- A frame entry is its two words and its instructions. -/
theorem length_fde (f : Fde) :
    (Entry.fde f).body.length
      = 4 + (rawFde f).head.length
        + (CallFrame.bytes f.instructions).length :=
  (rawOf (.fde f)).length_body

/-- So an entry lies in the section as its raw form does. -/
theorem rawOf_bytes (e : Entry) : (rawOf e).bytes = e.bytes := by
  rw [RawEntry.bytes, rawOf_body]
  rfl

/-- A section is therefore one of raw entries. -/
theorem rawBytes_map (entries : List Entry) :
    rawBytes (entries.map rawOf) = sectionBytes entries := by
  rw [rawBytes, List.flatMap_map]
  exact List.flatMap_congr fun e _ => rawOf_bytes e

/-- The decoders deliver the numbers of both or of neither. -/
theorem rawReadable_rawOf (e : Entry) :
    RawReadable (rawOf e) ↔ Readable e := by
  cases e with
  | cie c => exact Iff.rfl
  | fde f => exact Iff.rfl

/-- What is recorded of the raw form is what is parsed. -/
theorem recordedCie_rawCie (c : Cie) (following behind : List U8) :
    recordedCie (rawCie c) following behind
      = parsedCie c following behind := by
  have hbody := rawOf_body (.cie c)
  unfold recordedCie parsedCie
  rw [show (RawEntry.cie (rawCie c)).body = _ from hbody]
  rfl

/-- What is recorded of what the parser sees is what is kept. -/
theorem record_rawOf (info : CallFrameInfo) (offset : Nat)
    (following behind : List U8) (e : Entry) :
    record info offset following behind (rawOf e)
      = keep info offset following behind e := by
  cases e with
  | cie c =>
      show info.insertCie _ (recordedCie (rawCie c) ..) = _
      rw [recordedCie_rawCie]
      rfl
  | fde f => rfl

/-- And so for a whole section, by induction on its entries. -/
theorem recorded_rawOf (behind : List U8) (entries : List Entry)
    (offset : Nat) (info : CallFrameInfo) :
    recorded behind offset (entries.map rawOf) info
      = kept behind offset entries info := by
  induction entries generalizing offset info with
  | nil => rfl
  | cons e entries ih =>
      rw [List.map_cons, recorded, rawBytes_map, record_rawOf, ih,
        rawOf_bytes]
      rfl

/-- The constructor, on a section of entries. -/
theorem callFrameInfo_new (entries : List Entry) (behind : List U8)
    (hlen : (sectionBytes entries).length < 2 ^ 32) :
    CallFrameInfo.new (sectionBytes entries ++ behind)
        (sectionBytes entries).length
      = if ∀ e ∈ entries, Readable e then
          .ok (kept behind 0 entries ⟨[], []⟩)
        else .error (.undefined .shiftCount) := by
  rw [← rawBytes_map] at hlen ⊢
  rw [callFrameInfo_raw _ (List.forall_mem_map.2 fun e _ => rawOf_narrow e)
    behind hlen, recorded_rawOf]
  simp only [List.forall_mem_map, rawReadable_rawOf]

-- ========================================================= what was kept

/-- A frame entry and what was kept of it. -/
def IsKept (f : Fde) (p : FrameDescriptEntry) : Prop :=
  ∃ following behind, p = parsedFde f following behind

/-- The frame entries of a section. -/
def fdesOf : List Entry → List Fde
  | [] => []
  | .cie _ :: entries => fdesOf entries
  | .fde f :: entries => f :: fdesOf entries

/-- The frame entries are the raw ones, in order. -/
theorem rawFdesOf_map (entries : List Entry) :
    rawFdesOf (entries.map rawOf) = (fdesOf entries).map rawFde := by
  induction entries with
  | nil => rfl
  | cons e entries ih =>
      cases e with
      | cie c => exact ih
      | fde f => exact congrArg (rawFde f :: ·) ih

/-- The frame entries are kept in their order. -/
theorem kept_fdes (behind : List U8) (entries : List Entry) (offset : Nat)
    (info : CallFrameInfo) :
    ∃ fdes, (kept behind offset entries info).fdes = info.fdes ++ fdes
      ∧ List.Forall₂ IsKept (fdesOf entries) fdes := by
  obtain ⟨fdes, hfdes, hrecorded⟩ :=
    recorded_fdes behind (entries.map rawOf) offset info
  rw [recorded_rawOf] at hfdes
  rw [rawFdesOf_map, List.forall₂_map_left_iff] at hrecorded
  exact ⟨fdes, hfdes, hrecorded.imp fun f p ⟨following, hp⟩ =>
    ⟨following, behind, hp⟩⟩

/-- A common entry is found where its raw form is. -/
theorem rawCieAt_map (key offset : Nat) (entries : List Entry) :
    rawCieAt key offset (entries.map rawOf)
      = (cieAt key offset entries).map fun c =>
          (rawCie c, (behindCieAt key offset entries).map rawOf) := by
  induction entries generalizing offset with
  | nil => rfl
  | cons e entries ih =>
      have hbytes := rawOf_bytes e
      cases e with
      | cie c =>
          rw [List.map_cons, rawOf, rawCieAt, cieAt, behindCieAt]
          split
          · rfl
          · rw [ih, show (RawEntry.cie (rawCie c)).bytes = _ from hbytes]
      | fde f =>
          rw [List.map_cons, rawOf, rawCieAt, ih, cieAt, behindCieAt,
            show (RawEntry.fde (rawFde f)).bytes = _ from hbytes]

/-- The common entries are kept under their offsets, the entries behind
them behind their instructions. -/
theorem kept_cies (behind : List U8) (entries : List Entry)
    (offset : Nat) (info : CallFrameInfo) (key : U32)
    (hlen : offset + (sectionBytes entries).length < 2 ^ 32) :
    ∃ found, (kept behind offset entries info).cies.lookup
        (key.setWidth 64) = (info.cies.lookup (key.setWidth 64)).or found
      ∧ found = (cieAt key.toNat offset entries).map fun c => parsedCie c
          (sectionBytes (behindCieAt key.toNat offset entries)) behind := by
  have hkey := key.isLt
  have hrecorded := recorded_cies behind (entries.map rawOf) offset info
    (show key.toNat < 2 ^ 64 by omega) (by rw [rawBytes_map]; omega)
  rw [recorded_rawOf, rawCieAt_map] at hrecorded
  have hwide : BitVec.ofNat 64 key.toNat = key.setWidth 64 := by
    rw [BitVec.ofNat_toNat]
  rw [hwide] at hrecorded
  refine ⟨_, hrecorded, ?_⟩
  rw [Option.map_map]
  refine Option.map_congr fun c _ => ?_
  show recordedCie (rawCie c) (rawBytes (List.map rawOf _)) behind = _
  rw [recordedCie_rawCie, rawBytes_map]

end T89Emu.Dwarf
