/-
Call frame information, the section .debug_frame (CallFrameInfo.cpp).

A row of the table keeps the offset of the CFA and its location in one
member, as the `union` of the source does: who writes the one
overwrites the other.

The loops take fuel, the number of bytes in front of the cursor and one
more: every round of either reads a byte.
-/
import T89Emu.Core.Datapath
import T89Emu.Dwarf.DataStream

namespace T89Emu.Dwarf

open Cpp

-- =============================================================== entries

structure CommonInfoEntry where
  length : U32
  cieId : U32
  version : U8
  augmentation : List U8
  codeAlignmentFactor : U64
  dataAlignmentFactor : U64
  returnAddressRegister : U64
  initialInstructions : Option (List U8)
  instructionsBlockSize : U64
  deriving DecidableEq, Repr

structure FrameDescriptEntry where
  length : U32
  ciePointer : U32
  initialLocation : U32
  addressRange : U32
  instructions : Option (List U8)
  instructionsBlockSize : U64
  deriving DecidableEq, Repr

/-- `getLen` of both kinds of entries. -/
def getLen (length : U32) : U64 := 4 + length.setWidth 64

/-- What was found so far. -/
structure CallFrameInfo where
  cies : List (U64 × CommonInfoEntry)
  fdes : List FrameDescriptEntry
  deriving DecidableEq, Repr

-- =============================================================== parsing

/-- The loop over the augmentation, over the bytes in front. -/
def augmentationOf : List U8 → Proc (List U8)
  | [] => throw (.undefined .outOfBounds)
  | c :: rest =>
      if c = 0#8 then pure []
      else do
        let augmentation ← augmentationOf rest
        pure (c :: augmentation)

def decodeAugmentation : Decoder (List U8) := fun s => do
  let augmentation ← augmentationOf s.rest
  pure (augmentation, s.skip (augmentation.length + 1))

/-- An index of the stream as a `size_t`. -/
def indexOf (s : DataStream) : U64 := BitVec.ofNat 64 s.getIndex

/-- `parseCie`; its last parameter is one of 32 bits. -/
def parseCie (length cieId debugFrameOffset : U32) :
    Decoder CommonInfoEntry := do
  let version ← decodeUInt8
  let augmentation ← decodeAugmentation
  let codeAlignmentFactor ← decodeULeb128
  let dataAlignmentFactor ← decodeLeb128
  let returnAddressRegister ← decodeULeb128
  let s ← get
  pure {
    length, cieId, version, augmentation, codeAlignmentFactor,
    dataAlignmentFactor, returnAddressRegister
    initialInstructions := s.getData s.getIndex
    instructionsBlockSize := getLen length
      - (indexOf s - debugFrameOffset.setWidth 64) }

def parseFde (length ciePointer : U32) : Decoder FrameDescriptEntry := do
  let startIdx := (indexOf (← get) - 8).setWidth 32
  let initialLocation ← decodeUInt32
  let addressRange ← decodeUInt32
  let s ← get
  pure {
    length, ciePointer, initialLocation, addressRange
    instructions := s.getData s.getIndex
    instructionsBlockSize := getLen length
      - (indexOf s - startIdx.setWidth 64) }

/-- `cies.insert`: an entry that is there already stays. -/
def CallFrameInfo.insertCie (info : CallFrameInfo) (key : U64)
    (cie : CommonInfoEntry) : CallFrameInfo :=
  match info.cies.lookup key with
  | some _ => info
  | none => { info with cies := info.cies ++ [(key, cie)] }

/-- One round of `generateFrameInfo`. -/
def parseEntry (info : CallFrameInfo) : Decoder CallFrameInfo := do
  let debugFrameOffset := (← get).getIndex
  let length ← decodeUInt32
  let identifier ← decodeUInt32
  let info ←
    if identifier = 0xffffffff#32 then do
      let cieOffset := (indexOf (← get) - 8).setWidth 32
      let cie ← parseCie length identifier cieOffset
      pure (info.insertCie (cieOffset.setWidth 64) cie)
    else do
      let fde ← parseFde length identifier
      pure { info with fdes := info.fdes ++ [fde] }
  modify (·.setOffset (debugFrameOffset + (getLen length).toNat))
  pure info

/-- The loop of `generateFrameInfo`. -/
def generateFrameInfo : Nat → CallFrameInfo → Decoder CallFrameInfo
  | 0, _ => throw .running
  | fuel + 1, info => do
      if (← get).isStreamable then
        let info ← parseEntry info
        generateFrameInfo fuel info
      else pure info

/-- The constructor, of the bytes of the file from the section on and
the section's size. -/
def CallFrameInfo.new (debugFrameStart : List U8) (debugFrameLen : Nat) :
    Proc CallFrameInfo := do
  let cfiStream : DataStream := ⟨some debugFrameStart, 0, debugFrameLen⟩
  let (info, _) ← generateFrameInfo (cfiStream.rest.length + 1) ⟨[], []⟩
    cfiStream
  pure info

-- ============================================================== the table

inductive CfiRule
  | cfiUndefined | cfiSameValue | cfiOffset | cfiValOffset | cfiRegister
  | cfiExpression | cfiValExpression | cfiArchitectural
  deriving DecidableEq, Repr

structure RegRule where
  value : U32
  cfiRule : CfiRule
  deriving DecidableEq, Repr

/-- A row of the table. `regOffset` and `location` are both the
`union`. -/
structure TableEntry where
  isCfaLocExpr : Bool
  regNum : U32
  union : U32
  regRules : U8 → RegRule

namespace TableEntry

/-- A row as the vector value-initializes it, the rule of every register
undefined. -/
def initial : TableEntry :=
  ⟨false, 0, 0, fun _ => ⟨0, .cfiUndefined⟩⟩

def regOffset (e : TableEntry) : U32 := e.union
def location (e : TableEntry) : U32 := e.union

def setRegOffset (e : TableEntry) (regOffset : U32) : TableEntry :=
  { e with union := regOffset }

def setLocation (e : TableEntry) (location : U32) : TableEntry :=
  { e with union := location }

def setRule (e : TableEntry) (reg : U8) (rule : RegRule) : TableEntry :=
  { e with regRules := fun r => if r = reg then rule else e.regRules r }

end TableEntry

/-- The table: the rows before the last one, and the last one. -/
structure VirtTable where
  rows : List TableEntry
  back : TableEntry

namespace VirtTable

def front (t : VirtTable) : TableEntry := t.rows.headD t.back

/-- `push_back` of a copy of the last row, with another location. -/
def advance (t : VirtTable) (location : U32) : VirtTable :=
  ⟨t.rows ++ [t.back], t.back.setLocation location⟩

def updateBack (t : VirtTable) (f : TableEntry → TableEntry) : VirtTable :=
  { t with back := f t.back }

end VirtTable

-- ========================================================== instructions

/-- The instructions with their operand in the opcode. -/
def primaryInstruction (cie : CommonInfoEntry) (t : VirtTable)
    (opcode : U8) : Decoder VirtTable :=
  let operand := opcode &&& 0x4f
  match (opcode &&& 0xc0).toNat with
  | 0x40 =>
      pure (t.advance (t.back.location
        + (operand.setWidth 64 * cie.codeAlignmentFactor).setWidth 32))
  | 0x80 => do
      let offset ← decodeULeb128
      let value := (offset * cie.dataAlignmentFactor).setWidth 32
      pure (t.updateBack fun e =>
        e.setRule operand { e.regRules operand with value })
  | 0xc0 =>
      let cfiRule := (t.front.regRules operand).cfiRule
      pure (t.updateBack fun e =>
        e.setRule operand { e.regRules operand with cfiRule })
  | _ => throw .exit

/-- The instructions with an opcode of their own. -/
def extendedInstruction (t : VirtTable) (opcode : U8) :
    Decoder VirtTable :=
  match opcode.toNat with
  | 0x00 => pure t
  | 0x02 => do
      let delta ← decodeUInt8
      pure (t.advance (t.back.location + delta.setWidth 32))
  | 0x0c => do
      let regNum ← decodeULeb128
      let regOffset ← decodeULeb128
      pure (t.updateBack fun e =>
        { e with regNum := regNum.setWidth 32 }.setRegOffset
          (regOffset.setWidth 32))
  | 0x0d => do
      if t.back.isCfaLocExpr then throw .exit
      let regNum ← decodeULeb128
      pure (t.updateBack fun e => { e with regNum := regNum.setWidth 32 })
  | 0x0e => do
      if t.back.isCfaLocExpr then throw .exit
      let regOffset ← decodeULeb128
      pure (t.updateBack fun e => e.setRegOffset (regOffset.setWidth 32))
  | _ => throw .exit

/-- One round of `processInstructions`. -/
def processInstruction (cie : CommonInfoEntry) (t : VirtTable) :
    Decoder VirtTable := do
  let opcode ← decodeUInt8
  if opcode &&& 0xc0 ≠ 0#8 then primaryInstruction cie t opcode
  else extendedInstruction t opcode

/-- The loop of `processInstructions`. -/
def processLoop (cie : CommonInfoEntry) :
    Nat → VirtTable → Decoder VirtTable
  | 0, _ => throw .running
  | fuel + 1, t => do
      if (← get).isStreamable then
        let t ← processInstruction cie t
        processLoop cie fuel t
      else pure t

/-- `processInstructions` of a stream that starts at its first byte; the
registers and both locations are parameters that it does not use. -/
def processInstructions (t : VirtTable) (cie : CommonInfoEntry)
    (instructions : Option (List U8)) (size : U64) : Proc VirtTable := do
  let instrStream : DataStream := ⟨instructions, 0, size.toNat⟩
  let (t, _) ← processLoop cie (instrStream.rest.length + 1) t instrStream
  pure t

-- ================================================================ lookup

/-- Whether an entry is for this location; the end of its range is a sum
of 32 bits. -/
def FrameDescriptEntry.covers (l1 : U32) (fde : FrameDescriptEntry) :
    Bool :=
  decide (fde.initialLocation ≤ l1)
    && decide (l1 < fde.initialLocation + fde.addressRange)

namespace CallFrameInfo

/-- The search of `generateVirtTable`: the last entry that fits. -/
def findFde (info : CallFrameInfo) (l1 : U32) :
    Option FrameDescriptEntry :=
  info.fdes.foldl
    (fun fde entry => if entry.covers l1 then some entry else fde) none

/-- `generateVirtTable`; `none` when it returns false. -/
def generateVirtTable (info : CallFrameInfo) (l1 : U32) :
    Proc (Option VirtTable) :=
  match info.findFde l1 with
  | none => pure none
  | some fde =>
      match info.cies.lookup (fde.ciePointer.setWidth 64) with
      | none => pure none
      | some cie => do
          let t : VirtTable :=
            ⟨[], TableEntry.initial.setLocation fde.initialLocation⟩
          let t ← processInstructions t cie cie.initialInstructions
            cie.instructionsBlockSize
          let t ← processInstructions t cie fde.instructions
            fde.instructionsBlockSize
          pure (some t)

/-- `regs->read(reg)` of a number that need not be a register's. -/
def readReg (regs : RegisterFile) (reg : U32) : Eval U32 :=
  if reg.toNat < 32 then .ok (regs.read (reg.setWidth 5))
  else .error .outOfBounds

/-- `getCfaAtLocation`: the CFA, `none` when it returns false. -/
def getCfaAtLocation (info : CallFrameInfo) (l1 : U32)
    (regs : RegisterFile) : Proc (Option U32) := do
  match ← info.generateVirtTable l1 with
  | none => pure none
  | some t =>
      let value ← readReg regs t.back.regNum
      pure (some (value + t.back.regOffset))

end CallFrameInfo

end T89Emu.Dwarf
