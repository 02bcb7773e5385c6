/-
The entries of a section .debug_frame, their instructions being bytes that
are not looked at.

An entry stands behind its length. A common entry is found by its offset
in the section, which is what the frame entries refer to; its mark stands
where they have that offset.

In version 1 of the common entries the register of the return address is
a byte, in the later ones a LEB128 number. A byte below 128 looks like
the encoding of itself, so that a reader who expects a number finds the
register (`ReturnAddress.encoding`). Any other byte looks like the first
one of several.
-/
import T89Emu.Lib.Dwarf.CallFrame

namespace CallFrame

/-- The register of the return address: the byte of version 1, or the
number of the others. -/
inductive ReturnAddress
  | byte (register : BitVec 8)
  | number (register : Leb128)
  deriving DecidableEq, Repr

namespace ReturnAddress

def bytes : ReturnAddress → List (BitVec 8)
  | byte register => [register]
  | number register => register.bytes

def register : ReturnAddress → Nat
  | byte register => register.toNat
  | number register => register.unsigned

/-- The number that it looks like to a reader who expects one. -/
def encoding : ReturnAddress → Leb128
  | byte register => .single (register.setWidth 7)
  | number register => register

/-- It does look like a number. -/
def Narrow : ReturnAddress → Prop
  | byte register => register < 0x80
  | number _ => True

/-- A byte is narrow if its top bit is clear. -/
theorem narrow_byte_iff (register : BitVec 8) :
    (byte register).Narrow ↔ register.msb = false := by
  show register < 0x80 ↔ _
  revert register
  decide

theorem encoding_bytes {a : ReturnAddress} (h : a.Narrow) :
    a.encoding.bytes = a.bytes := by
  cases a with
  | number register => rfl
  | byte register =>
      have hsplit := Leb128.byte_split register
      rw [(narrow_byte_iff register).1 h] at hsplit
      exact congrArg (fun b => [b]) hsplit

theorem encoding_unsigned {a : ReturnAddress} (h : a.Narrow) :
    a.encoding.unsigned = a.register := by
  cases a with
  | number register => rfl
  | byte register =>
      have hlt : register.toNat < 128 := h
      show (Leb128.single (register.setWidth 7)).unsigned = register.toNat
      rw [Leb128.unsigned_single, BitVec.toNat_setWidth,
        Nat.mod_eq_of_lt hlt]

end ReturnAddress

structure RawCie where
  version : BitVec 8
  codeAlignment : Leb128
  dataAlignment : Leb128
  returnAddress : ReturnAddress
  block : List (BitVec 8)
  deriving DecidableEq, Repr

structure RawFde where
  ciePointer : BitVec 32
  initialLocation : BitVec 32
  addressRange : BitVec 32
  block : List (BitVec 8)
  isFde : ciePointer ≠ 0xffffffff
  deriving Repr

inductive RawEntry
  | cie (c : RawCie)
  | fde (f : RawFde)
  deriving Repr

/-- The version, the end of an empty augmentation, and the numbers. -/
def RawCie.head (c : RawCie) : List (BitVec 8) :=
  [c.version] ++ ([0] ++ (c.codeAlignment.bytes
    ++ (c.dataAlignment.bytes ++ c.returnAddress.bytes)))

def RawFde.head (f : RawFde) : List (BitVec 8) :=
  wordBytes f.initialLocation ++ wordBytes f.addressRange

/-- Of version 1, with a byte for the register of the return address, or
of version 3, no number of it having more than `width` bytes. -/
structure RawCie.Plain (c : RawCie) (width : Nat) : Prop where
  register : (c.version = 1 ∧ ∃ r, c.returnAddress = .byte r)
    ∨ (c.version = 3 ∧ ∃ e, c.returnAddress = .number e ∧ e.size ≤ width)
  codeAlignment : c.codeAlignment.size ≤ width
  dataAlignment : c.dataAlignment.size ≤ width

/-- The register then looks like a number of at most `width` bytes as
well. -/
theorem RawCie.Plain.encoding_size {c : RawCie} {width : Nat}
    (hc : c.Plain width) (hwidth : 1 ≤ width) :
    c.returnAddress.encoding.size ≤ width := by
  rcases hc.register with ⟨-, r, hr⟩ | ⟨-, e, he, hsize⟩
  · rw [hr]
    exact hwidth
  · rw [he]
    exact hsize

namespace RawEntry

/-- The word behind the length. -/
def mark : RawEntry → BitVec 32
  | cie _ => 0xffffffff
  | fde f => f.ciePointer

def head : RawEntry → List (BitVec 8)
  | cie c => c.head
  | fde f => f.head

/-- The bytes left in the entry behind its head. -/
def block : RawEntry → List (BitVec 8)
  | cie c => c.block
  | fde f => f.block

/-- The register of its return address, if it is a common entry, looks
like a number. -/
def Narrow : RawEntry → Prop
  | cie c => c.returnAddress.Narrow
  | fde _ => True

/-- What the length of an entry counts. -/
def body (e : RawEntry) : List (BitVec 8) :=
  wordBytes e.mark ++ e.head ++ e.block

def bytes (e : RawEntry) : List (BitVec 8) :=
  wordBytes (BitVec.ofNat 32 e.body.length) ++ e.body

theorem length_body (e : RawEntry) :
    e.body.length = 4 + e.head.length + e.block.length := by
  simp [body, wordBytes]
  omega

theorem length_bytes (e : RawEntry) :
    e.bytes.length = 4 + e.body.length := by
  simp [bytes, wordBytes]
  omega

end RawEntry

/-- The bytes of a section. -/
def rawBytes (entries : List RawEntry) : List (BitVec 8) :=
  entries.flatMap RawEntry.bytes

@[simp] theorem rawBytes_cons (e : RawEntry) (entries : List RawEntry) :
    rawBytes (e :: entries) = e.bytes ++ rawBytes entries := rfl

/-- The common entry at an offset, the first of the entries lying at
`start`, with the entries behind it. -/
def rawCieAt (offset : Nat) :
    Nat → List RawEntry → Option (RawCie × List RawEntry)
  | _, [] => none
  | start, .cie c :: entries =>
      if start = offset then some (c, entries)
      else rawCieAt offset (start + (RawEntry.cie c).bytes.length) entries
  | start, .fde f :: entries =>
      rawCieAt offset (start + (RawEntry.fde f).bytes.length) entries

/-- The frame entries of a section. -/
def rawFdesOf : List RawEntry → List RawFde
  | [] => []
  | .cie _ :: entries => rawFdesOf entries
  | .fde f :: entries => f :: rawFdesOf entries

/-- The common entry behind a part of the entries is the first one, or
behind a part of the others. -/
theorem behind_cons_iff {offset start : Nat} {e : RawEntry}
    {entries following : List RawEntry} {c : RawCie} :
    (∃ before, e :: entries = before ++ .cie c :: following
        ∧ offset = start + (rawBytes before).length)
      ↔ (e = .cie c ∧ entries = following ∧ offset = start)
        ∨ ∃ before, entries = before ++ .cie c :: following
          ∧ offset = start + e.bytes.length + (rawBytes before).length := by
  constructor
  · rintro ⟨_ | ⟨first, before⟩, hentries, hoffset⟩
    · obtain ⟨he, hfollowing⟩ := List.cons.inj hentries
      exact .inl ⟨he, hfollowing, hoffset⟩
    · obtain ⟨rfl, htail⟩ := List.cons.inj hentries
      rw [rawBytes_cons, List.length_append, ← Nat.add_assoc] at hoffset
      exact .inr ⟨before, htail, hoffset⟩
  · rintro (⟨rfl, rfl, hoffset⟩ | ⟨before, rfl, hoffset⟩)
    · exact ⟨[], rfl, hoffset⟩
    · refine ⟨e :: before, rfl, ?_⟩
      rw [rawBytes_cons, List.length_append, ← Nat.add_assoc]
      exact hoffset

/-- The entry found at an offset is the one that lies there. -/
theorem rawCieAt_eq_some_iff {offset start : Nat} {entries : List RawEntry}
    {c : RawCie} {following : List RawEntry} :
    rawCieAt offset start entries = some (c, following)
      ↔ ∃ before, entries = before ++ .cie c :: following
        ∧ offset = start + (rawBytes before).length := by
  induction entries generalizing start with
  | nil => simp [rawCieAt]
  | cons e entries ih =>
      have hpos := e.length_bytes
      rw [behind_cons_iff]
      cases e with
      | fde f =>
          rw [rawCieAt, ih]
          exact (or_iff_right fun h => RawEntry.noConfusion h.1).symm
      | cie c' =>
          rw [rawCieAt]
          by_cases hstart : start = offset
          · rw [if_pos hstart, Option.some.injEq, Prod.mk.injEq]
            constructor
            · rintro ⟨rfl, rfl⟩
              exact .inl ⟨rfl, rfl, hstart.symm⟩
            · rintro (⟨hc, hentries, -⟩ | ⟨before, -, hoffset⟩)
              · exact ⟨RawEntry.cie.inj hc, hentries⟩
              · omega
          · rw [if_neg hstart, ih]
            exact (or_iff_right fun h => hstart h.2.2.symm).symm

end CallFrame
