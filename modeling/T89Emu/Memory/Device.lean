/-
The memory devices (MemoryDevice.cpp and its four subclasses).

A `MemoryDevice` is what the constructor fixes for good: the class, the
base address and the size. The bytes are the device's `Mem`, a buffer
of exactly `deviceSize` bytes, and travel separately, so that an access
can change them and nothing else.

# What an access can do

`read` and `write` return the status code; `read` also returns what it
stored through its `readValue` pointer, `none` when it stored nothing.
Every dereference goes through the checked accesses of `Bytes.Buffer`:
one that leaves the buffer is undefined behaviour, not a status code.

The subclasses keep their own definitions. ROM, RAM and VRAM share the
shape of `read` (`fallThroughRead`, a `switch` without `break`s), and
RAM, VRAM and CLINT that of `write` (`sizedWrite`).
-/
import T89Emu.Architecture
import T89Emu.Lib.Bytes
import T89Emu.Lib.Eval

namespace T89Emu

open Bytes Cpp

/-- The subclasses of `MemoryDevice`. -/
inductive DeviceClass
  | rom | ram | video | clint
  deriving DecidableEq, Repr

/-- The fields of a device that never change after construction. -/
structure MemoryDevice where
  cls : DeviceClass
  baseAddress : U32
  deviceSize : U32
  deriving DecidableEq

namespace MemoryDevice

variable (d : MemoryDevice)

/-- The device's byte array, `new uint8_t[deviceSize]`. -/
abbrev Mem := Buffer d.deviceSize.toNat

/-- The array as the constructor value-initializes it. -/
def zeroed : d.Mem := fun _ => 0

/-- The end address, in the 32-bit arithmetic of the source: one past
the last byte, and 0 for a device that ends at the top of memory. -/
def getEndAddress : U32 := d.baseAddress + d.deviceSize

/-- `MemoryDevice::checkAlignment`; sizes other than 2 and 4 pass. -/
def checkAlignment (addr : U32) (size : Nat) : Bool :=
  match size with
  | WORD => addr.toNat % WORD == 0
  | HALFWORD => addr.toNat % HALFWORD == 0
  | BYTE => true
  | _ => true

/-- The index into the byte array that `getAddress` points at. -/
def getAddress (addr : U32) : Nat := (addr - d.baseAddress).toNat

/-- A dereference of `getAddress(addr)` as a `w`-byte unsigned integer,
converted to the 32-bit result. -/
def loadAt (mem : d.Mem) (addr : U32) (w : Nat) : Eval U32 := do
  let v ← deref (mem.load (d.getAddress addr) w)
  .ok (v.setWidth 32)

/-- An assignment through `getAddress(addr)` as a `w`-byte unsigned
integer: the value is truncated to `w` bytes. -/
def storeAt (mem : d.Mem) (addr writeValue : U32) (w : Nat) : Eval d.Mem :=
  deref (mem.store (d.getAddress addr) w (writeValue.setWidth (8 * w)))

/-- The `read` of ROM, RAM and VRAM: the `switch` has no `break`, so a
narrow case runs on into the wider ones, and the last assignment to
`*readValue` is what remains. -/
def fallThroughRead (mem : d.Mem) (addr : U32) (size : Nat) :
    Eval (U32 × Option U32) :=
  if checkAlignment addr size = false then
    .ok (LOAD_ADDRESS_MISALIGNED, none)
  else
    match size with
    | BYTE => do
        let _ ← d.loadAt mem addr 1
        let _ ← d.loadAt mem addr 2
        let readValue ← d.loadAt mem addr 4
        .ok (STATUS_OK, some readValue)
    | HALFWORD => do
        let _ ← d.loadAt mem addr 2
        let readValue ← d.loadAt mem addr 4
        .ok (STATUS_OK, some readValue)
    | WORD => do
        let readValue ← d.loadAt mem addr 4
        .ok (STATUS_OK, some readValue)
    | _ => .ok (STATUS_OK, none)

/-- The `write` of RAM, VRAM and CLINT. -/
def sizedWrite (mem : d.Mem) (addr writeValue : U32) (size : Nat) :
    Eval (U32 × d.Mem) :=
  if checkAlignment addr size = false then
    .ok (STORE_ADDRESS_MISALIGNED, mem)
  else
    match size with
    | BYTE => do
        let mem ← d.storeAt mem addr writeValue 1
        .ok (STATUS_OK, mem)
    | HALFWORD => do
        let mem ← d.storeAt mem addr writeValue 2
        .ok (STATUS_OK, mem)
    | WORD => do
        let mem ← d.storeAt mem addr writeValue 4
        .ok (STATUS_OK, mem)
    | _ => .ok (STATUS_OK, mem)

end MemoryDevice

-- ====================================================== the subclasses

variable (d : MemoryDevice)

def RomMemoryDevice.read (mem : d.Mem) (addr : U32) (size : Nat) :
    Eval (U32 × Option U32) :=
  d.fallThroughRead mem addr size

/-- Read-only memory cannot be written: the exception is raised before
anything is looked at. -/
def RomMemoryDevice.write (mem : d.Mem) (_addr _writeValue : U32)
    (_size : Nat) : Eval (U32 × d.Mem) :=
  .ok (ILLEGAL_INSTRUCTION, mem)

def RamMemoryDevice.read (mem : d.Mem) (addr : U32) (size : Nat) :
    Eval (U32 × Option U32) :=
  d.fallThroughRead mem addr size

def RamMemoryDevice.write (mem : d.Mem) (addr writeValue : U32)
    (size : Nat) : Eval (U32 × d.Mem) :=
  d.sizedWrite mem addr writeValue size

def VideoMemoryDevice.read (mem : d.Mem) (addr : U32) (size : Nat) :
    Eval (U32 × Option U32) :=
  d.fallThroughRead mem addr size

def VideoMemoryDevice.write (mem : d.Mem) (addr writeValue : U32)
    (size : Nat) : Eval (U32 × d.Mem) :=
  d.sizedWrite mem addr writeValue size

/-- The CLINT's `read` has a `break` after every case. -/
def ClintMemoryDevice.read (mem : d.Mem) (addr : U32) (size : Nat) :
    Eval (U32 × Option U32) :=
  if MemoryDevice.checkAlignment addr size = false then
    .ok (LOAD_ADDRESS_MISALIGNED, none)
  else
    match size with
    | BYTE => do
        let readValue ← d.loadAt mem addr 1
        .ok (STATUS_OK, some readValue)
    | HALFWORD => do
        let readValue ← d.loadAt mem addr 2
        .ok (STATUS_OK, some readValue)
    | WORD => do
        let readValue ← d.loadAt mem addr 4
        .ok (STATUS_OK, some readValue)
    | _ => .ok (STATUS_OK, none)

def ClintMemoryDevice.write (mem : d.Mem) (addr value : U32)
    (size : Nat) : Eval (U32 × d.Mem) :=
  d.sizedWrite mem addr value size

/-- Virtual dispatch of `device->read`. -/
def MemoryDevice.read (mem : d.Mem) (addr : U32) (size : Nat) :
    Eval (U32 × Option U32) :=
  match d.cls with
  | .rom => RomMemoryDevice.read d mem addr size
  | .ram => RamMemoryDevice.read d mem addr size
  | .video => VideoMemoryDevice.read d mem addr size
  | .clint => ClintMemoryDevice.read d mem addr size

/-- Virtual dispatch of `device->write`. -/
def MemoryDevice.write (mem : d.Mem) (addr writeValue : U32)
    (size : Nat) : Eval (U32 × d.Mem) :=
  match d.cls with
  | .rom => RomMemoryDevice.write d mem addr writeValue size
  | .ram => RamMemoryDevice.write d mem addr writeValue size
  | .video => VideoMemoryDevice.write d mem addr writeValue size
  | .clint => ClintMemoryDevice.write d mem addr writeValue size

end T89Emu
