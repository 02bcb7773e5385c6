/-
Location expressions (DwarfExpr.cpp) and the variables that are shown
with them (Variable.cpp).

A variable keeps one stack machine for all of its updates: its stack, and
its stream with the cursor, which `parseExpr` gives other data and
another length, and nothing else.

The loop of `parseExpr` takes fuel, the number of bytes in front of the
cursor and one more: every round reads a byte.
-/
import T89Emu.Dwarf.CallFrameInfo
import T89Emu.Dwarf.Scope
import T89Emu.Lib.Bytes

namespace T89Emu.Dwarf

open Cpp Bytes

-- ====================================================== the stack machine

/-- A stack machine, the top of its stack in front. -/
structure StackMachine where
  stack : List U32
  exprStream : DataStream
  deriving DecidableEq, Repr

namespace StackMachine

/-- `StackMachine()` -/
def new : StackMachine := ⟨[], .unbounded none⟩

/-- What the operation pushes. `frameBase` evaluates DW_AT_frame_base of
the variable's parent; it is `none` when there is no variable. -/
def operation (frameBase : Option (Proc U64)) (regs : RegisterFile)
    (cfi : CallFrameInfo) (pc : U32) (opcode : U8) : Decoder U32 :=
  if 0x30 ≤ opcode.toNat ∧ opcode.toNat ≤ 0x4f then
    pure ((opcode - 0x30).setWidth 32)
  else
    match opcode.toNat with
    | 0x03 => decodeUInt32
    | 0x91 =>
        match frameBase with
        | none => throw .exit
        | some location => do
            let offset : U32 := (← decodeLeb128).setWidth 32
            let location ← location
            pure ((offset.signExtend 64 + location).setWidth 32)
    | 0x9c => do
        match ← cfi.getCfaAtLocation pc regs with
        | some cfa => pure cfa
        | none => throw .exit
    | _ => throw .exit

/-- The loop of `parseExpr`. -/
def loop (operation : U8 → Decoder U32) :
    Nat → List U32 → Decoder (List U32)
  | 0, _ => throw .running
  | fuel + 1, stack => do
      if (← get).isStreamable then
        let opcode ← decodeUInt8
        let value ← operation opcode
        loop operation fuel (value :: stack)
      else pure stack

/-- `stack.top()` -/
def top (stack : List U32) : Proc U32 := deref stack.head?

/-- The bytes of a value of the stack in memory. -/
def genericBytes (value : U32) : List U8 :=
  [byteOf value 0, byteOf value 1, byteOf value 2, byteOf value 3]

/-- `parseExpr`: the result, and the machine behind it. -/
def parseExpr (m : StackMachine) (frameBase : Option (Proc U64))
    (expr : DebugData) (regs : RegisterFile) (cfi : CallFrameInfo)
    (pc : U32) : Proc (DebugData × StackMachine) := do
  let exprStream :=
    (m.exprStream.setData (some expr.data)).setLen expr.data.length
  let (stack, exprStream) ← loop (operation frameBase regs cfi pc)
    (exprStream.rest.length + 1) m.stack exprStream
  let value ← top stack
  pure (DebugData.default.write (genericBytes value), ⟨stack, exprStream⟩)

end StackMachine

-- ============================================================== variables

/-- What is shown of a variable. A member that nothing was stored in yet
is `none`; the constructor stores a name only. -/
structure VarInfo where
  isValid : Option Bool
  name : List U8
  location : Option U32
  value : List U8
  deriving DecidableEq, Repr

/-- What a variable keeps between two updates. -/
structure VariableState where
  stack : StackMachine
  varInfo : VarInfo
  deriving DecidableEq, Repr

/-- The string `???`. -/
def unknown : List U8 := [0x3f, 0x3f, 0x3f]

/-- The members that `Variable(debugEntry)` initializes. -/
def VariableState.new (v : Variable) : VariableState where
  stack := .new
  varInfo := {
    isValid := none
    name := match v.debugEntry.getAttribute .name with
      | some attEntry => attEntry.getString
      | none => unknown
    location := none
    value := [] }

namespace Variable

variable (v : Variable)

/-- The value of the parent's DW_AT_frame_base, by a stack machine of its
own. -/
def frameBase (regs : RegisterFile) (cfi : CallFrameInfo) (pc : U32) :
    Proc U64 :=
  match v.parentEntry.getAttribute .frame_base with
  | none => throw .nullDereference
  | some fbLoc => do
      let (location, _) ←
        StackMachine.new.parseExpr none fbLoc regs cfi pc
      location.getUInt

/-- `updateLocation` -/
def updateLocation (s : VariableState) (regs : RegisterFile)
    (cfi : CallFrameInfo) (pc : U32) : Proc (Bool × VariableState) :=
  match v.debugEntry.getAttribute .location with
  | none => pure (false, s)
  | some locExpr => do
      let (location, stack) ← s.stack.parseExpr
        (some (v.frameBase regs cfi pc)) locExpr regs cfi pc
      let location := (← location.getUInt).setWidth 32
      pure (true,
        { s with stack, varInfo := { s.varInfo with location } })

/-- `updateValue` -/
def updateValue (s : VariableState) : Bool × VariableState :=
  (true, { s with varInfo := { s.varInfo with value := unknown } })

/-- `getVarInfo`: what it stores in `res`, and what the variable keeps. -/
def getVarInfo (s : VariableState) (doUpdate : Bool)
    (regs : RegisterFile) (cfi : CallFrameInfo) (pc : U32) :
    Proc (VarInfo × VariableState) := do
  if !doUpdate then pure (s.varInfo, s)
  else
    let (located, s) ← v.updateLocation s regs cfi pc
    let (valid, s) := if located then updateValue s else (false, s)
    let s := if valid then s
      else { s with varInfo := { s.varInfo with isValid := some false } }
    pure (s.varInfo, s)

end Variable

end T89Emu.Dwarf
