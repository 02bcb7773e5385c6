/-
Debug information entries, their attributes and the abbreviations they
are written with (DebugInfoEntry.cpp, StringTable.cpp).

An entry's pointer to its parent is kept as the parent's offset in the
section, which is set before the entry is made. A `std::map` that is
only inserted into and looked up is an association list in which the
first insertion of a key stays.
-/
import Mathlib.Algebra.Group.Int.Defs
import T89Emu.Dwarf.DataStream
import T89Emu.Dwarf.Encodings

namespace T89Emu.Dwarf

open Cpp

-- ========================================================= string tables

/-- A pointer into the file: its bytes, and where the table starts. -/
structure StringTable where
  bytes : List U8
  tableStart : Nat
  deriving DecidableEq, Repr

/-- The loop of `getString`, its index at `i`, the bytes from there on
in front of it. -/
def stringFrom : Int → List U8 → Proc (List U8)
  | _, [] => throw (.undefined .outOfBounds)
  | i, c :: rest =>
      if c = 0#8 then pure []
      else if 2 ^ 31 ≤ i + 1 then throw .signedOverflow
      else do
        let res ← stringFrom (i + 1) rest
        pure (c :: res)

/-- `getString`; its loop counts in an `int`. -/
def StringTable.getString (t : StringTable) (offset : U64) :
    Proc (List U8) :=
  let i := (offset.setWidth 32).toInt
  if (t.tableStart : Int) + i < 0 then throw (.undefined .outOfBounds)
  else stringFrom i (t.bytes.drop ((t.tableStart : Int) + i).toNat)

-- ======================================================= attribute values

/-- The value of an attribute. -/
structure DebugData where
  form : FormEncoding
  data : List U8
  deriving DecidableEq, Repr

/-- `DebugData(form)`. -/
def DebugData.new (form : FormEncoding) : DebugData := ⟨form, []⟩

/-- `DebugData()`. -/
def DebugData.default : DebugData := ⟨.data8, []⟩

def DebugData.write (d : DebugData) (buff : List U8) : DebugData :=
  { d with data := d.data ++ buff }

/-- The loop of `getUInt` over the bytes from index `i` on: bytes are
put in at `8 * i`, an undefined shift from `i = 8` on. -/
def uintFrom : Nat → List U8 → Eval U64
  | _, [] => .ok 0#64
  | i, b :: rest => do
      if 8 ≤ i then throw .shiftCount
      let res ← uintFrom (i + 1) rest
      pure (b.setWidth 64 <<< (8 * i) ||| res)

/-- `getUInt`; the forms that it does not read as a number end the
program. -/
def DebugData.getUInt (d : DebugData) : Proc U64 :=
  match d.form with
  | .addr | .block | .exprloc | .data1 | .flag | .flag_present | .ref1
  | .strx1 | .addrx1 | .data2 | .ref2 | .strx2 | .addrx2 | .strx3
  | .addrx3 | .data4 | .ref_addr | .ref4 | .sec_offset | .line_strp
  | .strx4 | .addrx4 | .data8 | .ref8 | .ref_sig8 | .sdata | .udata
  | .ref_udata | .strx | .addrx | .loclistx | .rnglistx
  | .implicit_const => uintFrom 0 d.data
  | .block2 | .block4 | .string | .block1 | .strp | .indirect | .ref_sup4
  | .strp_sup | .data16 | .ref_sup8 | .other _ => throw .exit

/-- `getString`: the bytes up to the first zero, which ends the string
that `c_str` returns. -/
def DebugData.getString (d : DebugData) : List U8 :=
  d.data.takeWhile (· ≠ 0#8)

-- ========================================================= abbreviations

structure AttributeEntry where
  name : AttributeEncoding
  form : FormEncoding
  special : U64
  deriving DecidableEq, Repr

structure AbbrevEntry where
  dieCode : U64
  dieTag : TagEncoding
  hasChild : Bool
  attEntries : List AttributeEntry
  deriving DecidableEq, Repr

structure AbbrevTable where
  abbrevEntries : List (U64 × AbbrevEntry)
  deriving DecidableEq, Repr

def AbbrevTable.getAbbrevEntry (t : AbbrevTable) (dieCode : U64) :
    Option AbbrevEntry :=
  t.abbrevEntries.lookup dieCode

-- =============================================================== entries

/-- A debug information entry. -/
inductive DebugInfoEntry
  | mk (parent : Option Nat) (code : U64) (offset : Nat)
      (abbrevEntry : AbbrevEntry)
      (attributes : List (AttributeEncoding × DebugData))
      (children : List DebugInfoEntry)

/-- `addAttribute`: an attribute that is there already stays. -/
def addAttribute (attributes : List (AttributeEncoding × DebugData))
    (key : AttributeEncoding) (data : DebugData) :
    List (AttributeEncoding × DebugData) :=
  match attributes.lookup key with
  | some _ => attributes
  | none => attributes ++ [(key, data)]

namespace DebugInfoEntry

def attributes : DebugInfoEntry → List (AttributeEncoding × DebugData)
  | mk _ _ _ _ attributes _ => attributes

def children : DebugInfoEntry → List DebugInfoEntry
  | mk _ _ _ _ _ children => children

def getOffset : DebugInfoEntry → Nat
  | mk _ _ offset _ _ _ => offset

def getAttribute (e : DebugInfoEntry) (key : AttributeEncoding) :
    Option DebugData :=
  e.attributes.lookup key

end DebugInfoEntry

end T89Emu.Dwarf
