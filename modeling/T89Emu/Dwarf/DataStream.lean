/-
Byte streams (DataStream.cpp).

A stream is a pointer into the file's bytes, a cursor and a length. The
pointer is kept as the bytes from it to the end of what may be read
behind it (`none` for a null pointer), which is more than `streamLen`
says: the decoders look at neither, only `isStreamable` and `getData`
look at `streamLen`. A byte behind the last one is out of bounds.

A group of a LEB128 number is an `int` when it is shifted, so the shift
is one of 32 bits (undefined from a count of 32 on) whose result is
widened with its sign. What the shift moves into or past the sign bit is
what GCC, the compiler of the project, defines it to be.
-/
import Mathlib.Algebra.Group.Nat.Defs
import T89Emu.Architecture
import T89Emu.Lib.Decode
import T89Emu.Lib.Process

namespace T89Emu

open Cpp

abbrev U8 := BitVec 8
abbrev U16 := BitVec 16

namespace Dwarf

structure DataStream where
  data : Option (List U8)
  index : Nat
  streamLen : Nat
  deriving DecidableEq, Repr

/-- A function that reads from a stream. -/
abbrev Decoder := StateT DataStream Proc

namespace DataStream

/-- `DataStream(data)`: a length of -1 as a `size_t`. -/
def unbounded (data : Option (List U8)) : DataStream :=
  ⟨data, 0, 2 ^ 64 - 1⟩

/-- The bytes in front of the cursor. -/
def rest (s : DataStream) : List U8 := (s.data.getD []).drop s.index

/-- The stream with its cursor `n` bytes further on. -/
def skip (n : Nat) (s : DataStream) : DataStream :=
  { s with index := s.index + n }

instance : Decode.Cursor DataStream U8 where
  rest := rest
  skip := skip
  skip_zero := fun _ => rfl
  skip_skip := fun m n s => by simp [skip, Nat.add_assoc]
  rest_skip := fun n s => by simp [rest, skip, List.drop_drop]

def isStreamable (s : DataStream) : Bool :=
  s.data.isSome && decide (s.index < s.streamLen)

/-- `getData(idx)`: a pointer to a byte inside the stream, else null. -/
def getData (idx : Nat) (s : DataStream) : Option (List U8) :=
  if idx < s.streamLen then some ((s.data.getD []).drop idx) else none

def getIndex (s : DataStream) : Nat := s.index

def setData (data : Option (List U8)) (s : DataStream) : DataStream :=
  { s with data := data }

def setOffset (offset : Nat) (s : DataStream) : DataStream :=
  { s with index := offset }

def setLen (len : Nat) (s : DataStream) : DataStream :=
  { s with streamLen := len }

end DataStream

-- ============================================================== decoders

open DataStream

def decodeUInt8 : Decoder U8 := fun s => do
  let b0 ← deref s.rest[0]?
  pure (b0, s.skip 1)

def decodeUInt16 : Decoder U16 := fun s => do
  let b0 ← deref s.rest[0]?
  let b1 ← deref s.rest[1]?
  pure (b1 ++ b0, s.skip 2)

def decodeUInt32 : Decoder U32 := fun s => do
  let b0 ← deref s.rest[0]?
  let b1 ← deref s.rest[1]?
  let b2 ← deref s.rest[2]?
  let b3 ← deref s.rest[3]?
  pure (b3 ++ b2 ++ b1 ++ b0, s.skip 4)

/-- `(0x7f & byte) << shift`, converted to a `size_t`. -/
def lebPart (byte : U8) (shift : Nat) : Eval U64 :=
  if shift < 32 then
    .ok (((0x7f#8 &&& byte).setWidth 32 <<< shift).signExtend 64)
  else .error .shiftCount

/-- The loop of both LEB128 decoders: the groups put together, the last
byte, and the number of bytes taken. -/
def lebLoop : List U8 → U64 → Nat → Eval (U64 × U8 × Nat)
  | [], _, _ => .error .outOfBounds
  | byte :: rest, result, shift => do
      let part ← lebPart byte shift
      let result := result ||| part
      if 0x80#8 &&& byte = 0#8 then pure (result, byte, 1)
      else
        let (result, last, n) ← lebLoop rest result (shift + 7)
        pure (result, last, n + 1)

/-- `decodeLeb128`; behind the loop `shift` is seven times the number of
bytes. -/
def decodeLeb128 : Decoder U64 := fun s => do
  let (result, byte, n) ← lebLoop s.rest 0 0
  if 0x40#8 &&& byte = 0#8 then pure (result, s.skip n)
  else if 7 * n < 32 then
    pure (result ||| (-(1#32 <<< (7 * n))).signExtend 64, s.skip n)
  else throw (.undefined .shiftCount)

def decodeULeb128 : Decoder U64 := fun s => do
  let (result, _, n) ← lebLoop s.rest 0 0
  pure (result, s.skip n)

end Dwarf

end T89Emu
