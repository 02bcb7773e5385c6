/-
Compile units of .debug_info (CompileUnit.cpp): the values of attributes
and the tree of entries.

`generateDebugInfo` is recursive, with a loop over the children in it.
Both take fuel, the number of bytes in front of the cursor and one more:
every round of either reads a byte, so it is never spent.
-/
import T89Emu.Dwarf.DebugInfoEntry

namespace T89Emu.Dwarf

open Cpp

/-- What decoding the entries of a unit looks at. `streamOffset` is the
offset of the stream's first byte in .debug_info
(`debugStream->getData() - dwarfParser->getDebugInfoStart()`). -/
structure CompileUnit where
  addressSize : U8
  abbrevTable : AbbrevTable
  debugStr : StringTable
  debugLineStr : StringTable
  streamOffset : Nat
  deriving DecidableEq, Repr

namespace CompileUnit

-- ================================================================ values

/-- The loop behind the `switch` of `decodeInfo`: `streamLen` bytes. -/
def copyBytes : Nat → DebugData → Decoder DebugData
  | 0, dieData => pure dieData
  | streamLen + 1, dieData => do
      let byte ← decodeUInt8
      copyBytes streamLen (dieData.write [byte])

/-- The loop of `DW_FORM_string`, over the bytes in front. -/
def copyString : List U8 → DebugData → Proc (DebugData × Nat)
  | [], _ => throw (.undefined .outOfBounds)
  | c :: rest, dieData =>
      if c = 0#8 then pure (dieData, 1)
      else do
        let (dieData, n) ← copyString rest (dieData.write [c])
        pure (dieData, n + 1)

/-- The eight bytes of a 64-bit value. -/
def bytesOf (value : U64) : List U8 :=
  (List.range 8).map fun k => value.extractLsb' (8 * k) 8

/-- `strTable->getString(offset)` of an offset that was an `int`. -/
def stringAt (strTable : StringTable) (offset : U32) : Proc (List U8) :=
  strTable.getString (offset.signExtend 64)

def decodeInfo (u : CompileUnit) (entry : AttributeEntry) :
    Decoder DebugData := do
  let dieData := DebugData.new entry.form
  match entry.form with
  | .addr => copyBytes u.addressSize.toNat dieData
  | .block | .exprloc =>
      let streamLen ← decodeULeb128
      copyBytes streamLen.toNat dieData
  | .block1 =>
      let streamLen ← decodeUInt8
      copyBytes streamLen.toNat dieData
  | .block2 =>
      let streamLen ← decodeUInt16
      copyBytes streamLen.toNat dieData
  | .block4 =>
      let streamLen ← decodeUInt32
      copyBytes streamLen.toNat dieData
  | .flag_present => copyBytes 0 dieData
  | .data1 | .flag | .ref1 | .strx1 | .addrx1 => copyBytes 1 dieData
  | .data2 | .ref2 | .strx2 | .addrx2 => copyBytes 2 dieData
  | .strx3 | .addrx3 => copyBytes 3 dieData
  | .data4 | .ref_addr | .ref4 | .sec_offset | .strx4 | .addrx4 =>
      copyBytes 4 dieData
  | .data8 | .ref8 | .ref_sig8 => copyBytes 8 dieData
  | .data16 => copyBytes 16 dieData
  | .sdata =>
      let value ← decodeLeb128
      pure (dieData.write (bytesOf value))
  | .udata | .ref_udata | .strx | .addrx | .loclistx | .rnglistx =>
      let value ← decodeULeb128
      pure (dieData.write (bytesOf value))
  | .strp =>
      let offset ← decodeUInt32
      let str ← stringAt u.debugStr offset
      pure (dieData.write str)
  | .line_strp =>
      let offset ← decodeUInt32
      let str ← stringAt u.debugLineStr offset
      pure (dieData.write str)
  | .string => fun s => do
      let (dieData, n) ← copyString s.rest dieData
      pure (dieData, s.skip n)
  | .implicit_const => pure (dieData.write (bytesOf entry.special))
  | .indirect | .ref_sup4 | .strp_sup | .ref_sup8 | .other _ =>
      throw .exit

-- =============================================================== entries

/-- How a call of `generateDebugInfo` ends: the node was deleted and null
is returned, null is returned at the end of the unit, or the node is
returned. -/
inductive Generated
  | deleted
  | endOfUnit (entry : DebugInfoEntry)
  | returned (entry : DebugInfoEntry)

/-- The node that the caller's pointer still refers to. -/
def Generated.kept : Generated → Option DebugInfoEntry
  | deleted => none
  | endOfUnit entry => some entry
  | returned entry => some entry

/-- The loop over an abbreviation's attributes. -/
def decodeAttributes (u : CompileUnit) :
    List AttributeEntry → List (AttributeEncoding × DebugData) →
      Decoder (List (AttributeEncoding × DebugData))
  | [], attributes => pure attributes
  | attEntry :: attEntries, attributes => do
      let data ← u.decodeInfo attEntry
      decodeAttributes u attEntries
        (addAttribute attributes attEntry.name data)

/-- The loop over the children, `generate` being the recursive call. -/
def childLoop (generate : Decoder Generated) :
    Nat → List DebugInfoEntry → Decoder (List DebugInfoEntry)
  | 0, _ => throw .running
  | fuel + 1, children => do
      match ← generate with
      | .returned child => childLoop generate fuel (children ++ [child])
      | .deleted | .endOfUnit _ => pure children

/-- `generateDebugInfo` with fuel; `parent` is that of its node. -/
def generateDebugInfoFrom (u : CompileUnit) :
    Nat → Option Nat → Decoder Generated
  | 0, _ => throw .running
  | fuel + 1, parent => do
      let offset := u.streamOffset + (← get).getIndex
      let code ← decodeULeb128
      if code = 0#64 then pure .deleted
      else
        match u.abbrevTable.getAbbrevEntry code with
        | none => throw .exit
        | some dieAbbrevEntry =>
            let attributes ←
              decodeAttributes u dieAbbrevEntry.attEntries []
            let node := DebugInfoEntry.mk parent code offset
              dieAbbrevEntry attributes
            if !(← get).isStreamable then pure (.endOfUnit (node []))
            else if !dieAbbrevEntry.hasChild then pure (.returned (node []))
            else
              let children ← childLoop
                (generateDebugInfoFrom u fuel (some offset)) fuel []
              pure (.returned (node children))

/-- `generateDebugInfo` of a node with the given parent. -/
def generateDebugInfo (u : CompileUnit) (parent : Option Nat) :
    Decoder Generated := fun s =>
  generateDebugInfoFrom u (s.rest.length + 1) parent s

end CompileUnit

end T89Emu.Dwarf
