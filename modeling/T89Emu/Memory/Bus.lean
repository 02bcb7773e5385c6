/-
The bus (Bus.cpp, the `BUS_EXPERIMENTAL` build that Bus.h selects).

The bus holds pointers. Here a pointer is a name of type `ι`, `dev`
says which device a name stands for, and a `Heap` holds the bytes of
every device; the bus itself is the list of names in the order in which
`addDevice` registered them. A write changes the heap at one name.

`select` is the loop that `read` and `write` share: the first device
whose closed range `[getBaseAddress, getEndAddress]` contains the
address.
-/
import Mathlib.Logic.Function.Basic
import T89Emu.Lib.FirstMatch
import T89Emu.Memory.Device

namespace T89Emu

open Cpp

/-- The bytes of every device. -/
abbrev Heap {ι : Type} (dev : ι → MemoryDevice) := (i : ι) → (dev i).Mem

/-- The registered devices, `std::vector<MemoryDevice *>`. -/
abbrev Bus (ι : Type) := List ι

namespace Bus

variable {ι : Type}

/-- `Bus::Bus`: no devices yet. -/
def empty : Bus ι := []

/-- `Bus::addDevice`, with the index it returns. -/
def addDevice (bus : Bus ι) (device : ι) : Bus ι × Nat :=
  let devices := bus ++ [device]
  (devices, devices.length - 1)

/-- The range test of the two loops. -/
def Hits (d : MemoryDevice) (addr : U32) : Prop :=
  addr ≥ d.baseAddress ∧ addr ≤ d.getEndAddress

instance (d : MemoryDevice) (addr : U32) : Decidable (Hits d addr) :=
  inferInstanceAs (Decidable (_ ∧ _))

variable (dev : ι → MemoryDevice)

/-- The device that the loop stops at. -/
def select (bus : Bus ι) (addr : U32) : Option ι :=
  FirstMatch.search (fun device => Hits (dev device) addr) bus

/-- `Bus::read`. -/
def read (bus : Bus ι) (heap : Heap dev) (addr : U32) (accessSize : Nat) :
    Eval (U32 × Option U32) :=
  match bus.select dev addr with
  | some device => (dev device).read (heap device) addr accessSize
  | none => .ok (LOAD_ACCESS_FAULT, none)

/-- `Bus::write`. -/
def write [DecidableEq ι] (bus : Bus ι) (heap : Heap dev)
    (addr data : U32) (accessSize : Nat) : Eval (U32 × Heap dev) :=
  match bus.select dev addr with
  | some device => do
      let (status, mem) ←
        (dev device).write (heap device) addr data accessSize
      .ok (status, Function.update heap device mem)
  | none => .ok (STORE_ACCESS_FAULT, heap)

-- ============================================== by the device selected

variable {dev} {bus : Bus ι} {heap : Heap dev} {addr data : U32}
  {accessSize : Nat}

theorem read_of_select {device : ι}
    (h : bus.select dev addr = some device) :
    bus.read dev heap addr accessSize
      = (dev device).read (heap device) addr accessSize := by
  unfold Bus.read
  rw [h]

theorem read_of_select_none (h : bus.select dev addr = none) :
    bus.read dev heap addr accessSize = .ok (LOAD_ACCESS_FAULT, none) := by
  unfold Bus.read
  rw [h]

theorem write_of_select [DecidableEq ι] {device : ι}
    (h : bus.select dev addr = some device) :
    bus.write dev heap addr data accessSize
      = (dev device).write (heap device) addr data accessSize >>= fun r =>
          .ok (r.1, Function.update heap device r.2) := by
  unfold Bus.write
  rw [h]

theorem write_of_select_none [DecidableEq ι]
    (h : bus.select dev addr = none) :
    bus.write dev heap addr data accessSize
      = .ok (STORE_ACCESS_FAULT, heap) := by
  unfold Bus.write
  rw [h]

end Bus

end T89Emu
