/-
The microcontroller (Mcu.cpp), with the two units that act on more than
one of its parts: the CLINT's cycle (ClintMemoryDevice.cpp) and trap
entry (Trap.cpp).

# State

What the constructor fixes is the `Layout`: the linker script chooses
the base of ROM and of RAM, everything else is a constant. `Mcu L` is
the state of a machine with that layout. `pc` and `nextPc` are separate
registers, as `ProgramCounter` and `NextPc` are separate objects;
`interruptType` is the CLINT's private field.

# One cycle

`nextInstruction` is the CLINT's cycle and a possible interrupt entry
(`serviceInterrupts`), then `attempt`: one instruction, and if it
raised an exception the trap entry and one instruction of the handler's
vector slot, whose own status nobody looks at.

`executeInstruction` fetches, runs the opcode `switch`
(`executeOpcode`) and updates the program counter. An arm of the
`switch` either returns a code from inside (`Arm.raise`) or breaks out
with the two operands that the next-pc unit wants (`Arm.retire`).
-/
import T89Emu.Core.Csr
import T89Emu.Core.Datapath
import T89Emu.Lib.Run
import T89Emu.Memory.Bus

namespace T89Emu

open Bytes Cpp

-- ============================================================ the layout

def CLINT_BASE : U32 := 0x30000000
def CLINT_SIZE : U32 := 0x18
def RAM_SIZE : U32 := 1048576
def ROM_SIZE : U32 := 2097152
def SCREEN_WIDTH : U32 := 512
def SCREEN_HEIGHT : U32 := 288
def TEXT_WIDTH : U32 := 64
def TEXT_HEIGHT : U32 := 21
def VIDEO_BASE : U32 := 0x20000000
def VIDEO_SIZE : U32 :=
  16 + TEXT_HEIGHT * TEXT_WIDTH + SCREEN_WIDTH * SCREEN_HEIGHT

/-- What the ELF file decides about the devices. -/
structure Layout where
  romBase : U32
  ramBase : U32

/-- The bases in the firmware's linker script. -/
def Layout.linker : Layout := ⟨0x80000000, 0x40000000⟩

/-- The four devices of `Mcu::Mcu`. -/
def Layout.device (L : Layout) : DeviceClass → MemoryDevice
  | .rom => ⟨.rom, L.romBase, ROM_SIZE⟩
  | .ram => ⟨.ram, L.ramBase, RAM_SIZE⟩
  | .video => ⟨.video, VIDEO_BASE, VIDEO_SIZE⟩
  | .clint => ⟨.clint, CLINT_BASE, CLINT_SIZE⟩

@[simp] theorem Layout.device_cls (L : Layout) (k : DeviceClass) :
    (L.device k).cls = k := by
  cases k with
  | rom => rfl
  | ram => rfl
  | video => rfl
  | clint => rfl

/-- The bus of `Mcu::Mcu`, in the order of its `addDevice` calls. -/
def Mcu.bus : Bus DeviceClass :=
  let bus := Bus.empty
  let bus := (bus.addDevice .rom).1
  let bus := (bus.addDevice .ram).1
  let bus := (bus.addDevice .video).1
  (bus.addDevice .clint).1

-- ============================================================= the state

/-- The state of a machine with layout `L`. -/
structure Mcu (L : Layout) where
  rf : RegisterFile
  pc : U32
  nextPc : U32
  csr : Csr
  mem : Heap L.device
  interruptType : U32

variable {L : Layout}

namespace Mcu

/-- `Mcu::Mcu`. -/
def new (L : Layout) (entryPc : U32) : Mcu L where
  rf := .reset
  pc := entryPc
  nextPc := entryPc
  csr := .reset
  mem := fun k => (L.device k).zeroed
  interruptType := 0

/-- The machine before its first cycle, the firmware flashed into
ROM. -/
def boot (L : Layout) (entryPc : U32) (firmware : (L.device .rom).Mem) :
    Mcu L :=
  { new L entryPc with
    mem := Function.update (new L entryPc).mem .rom firmware }

/-- A machine with the linker script's layout that is about to execute
the first of the given words, which fill ROM from its base on. -/
def program (words : List U32) : Mcu .linker :=
  boot .linker Layout.linker.romBase fun i =>
    byteOf (words.getD (i / 4) 0) (i % 4)

/-- `bus->read`. -/
def busRead (s : Mcu L) (addr : U32) (accessSize : Nat) :
    Eval (U32 × Option U32) :=
  bus.read L.device s.mem addr accessSize

/-- `bus->write`. -/
def busWrite (s : Mcu L) (addr data : U32) (accessSize : Nat) :
    Eval (U32 × Heap L.device) :=
  bus.write L.device s.mem addr data accessSize

/-- `rf->write`. -/
def writeReg (s : Mcu L) (data : U32) (reg : BitVec 5) : Mcu L :=
  { s with rf := s.rf.write data reg }

end Mcu

-- ============================================================= the CLINT

namespace ClintMemoryDevice

def MCYCLE_OFFSET : Nat := 0x0
def MTIMECMP_OFFSET : Nat := 0x8
def MSIP_OFFSET : Nat := 0x14

/-- The byte array of a CLINT. -/
abbrev Mem := Buffer CLINT_SIZE.toNat

variable (mem : Mem)

def mcycle : U64 := mem.peek MCYCLE_OFFSET 8 (by decide)
def mtimecmp : U64 := mem.peek MTIMECMP_OFFSET 8 (by decide)
def msip : U32 := mem.peek MSIP_OFFSET 4 (by decide)

/-- `ClintMemoryDevice::nextCycle`. -/
def nextCycle (csr : Csr) : Mem × Csr :=
  let mem : Mem := mem.poke MCYCLE_OFFSET 8 (mcycle mem + 1)
  let csr :=
    if mcycle mem ≥ mtimecmp mem then csr.setMtip else csr.resetMtip
  let csr := if msip mem = 1 then csr.setMsip else csr
  (mem, csr)

/-- `ClintMemoryDevice::checkInterrupts`: the answer, and the
`interruptType` field after the call. -/
def checkInterrupts (interruptType : U32) (csr : Csr) : Bool × U32 :=
  if csr.getMie = 0 then (false, interruptType)
  else if msip mem = 1 ∧ csr.getMsie ≠ 0 then
    (true, MACHINE_SOFTWARE_INTERRUPT)
  else if csr.getMtip ≠ 0 ∧ csr.getMtie ≠ 0 then
    (true, MACHINE_TIMER_INTERRUPT)
  else (false, interruptType)

end ClintMemoryDevice

-- ============================================================ trap entry

/-- The vector slot of a cause, counted in words. -/
def Trap.vectorTableOffset (mcause : U32) : U32 :=
  if mcause ≥ 0x80000000 then mcause - 0x80000000 else 16 + mcause

/-- `Trap::takeTrap`. -/
def Mcu.takeTrap (s : Mcu L) (mcause : U32) : Mcu L :=
  let csr := s.csr.setMepc s.pc
  let csr :=
    if mcause = ECALL_FROM_M_MODE then csr.setMepc (csr.getMepc + 4)
    else csr
  let csr := csr.setMcause mcause
  let csr := if csr.getMie ≠ 0 then csr.setMpie else csr
  let csr := csr.resetMie
  let csr := csr.setMpp MACHINE_MODE
  let csr := csr.resetMie
  let target := csr.getMtvec + 4 * Trap.vectorTableOffset mcause
  { s with csr := csr, nextPc := target, pc := target }

-- =================================================== instruction execution

/-- How an arm of the opcode `switch` ends: `return code`, or `break`
with the operands `A` and `B`. -/
inductive Arm (L : Layout)
  | raise (code : U32) (s : Mcu L)
  | retire (s : Mcu L) (A B : U32)

/-- C++'s `!` on an unsigned integer. -/
def logicalNot (v : U32) : U32 := if v = 0 then 1 else 0

namespace Mcu

/-- The CSR changes of the MRET arm. -/
def mretCsr (csr : Csr) : Csr :=
  let csr := if csr.getMpie ≠ 0 then csr.setMie else csr
  let csr := csr.setMpie
  csr.setMpp MACHINE_MODE

/-- The PRIV arm: ECALL, MRET and the register CSR instructions. -/
def executePriv (s : Mcu L) (w : U32) : Arm L :=
  let immediate := ImmediateGenerator.getImmediate w
  match funct3 w with
  | 0b000 =>
      if immediate = MRET_IMM then
        .retire { s with csr := mretCsr s.csr } 0 0
      else if immediate = ECALL_IMM then .raise ECALL_FROM_M_MODE s
      else .retire s 0 0
  | 0b001 => -- CSRRW
      let s := s.writeReg (s.csr.readCsr (csrAddr w)) (rd w)
      let data := s.rf.read (rs1 w)
      .retire { s with csr := s.csr.writeCsr (csrAddr w) data } 0 0
  | 0b010 => -- CSRRS
      let s := s.writeReg (s.csr.readCsr (csrAddr w)) (rd w)
      let data := s.rf.read (rs1 w) ||| s.csr.readCsr (csrAddr w)
      if rs1 w ≠ 0#5 then
        .retire { s with csr := s.csr.writeCsr (csrAddr w) data } 0 0
      else .retire s 0 0
  | 0b011 => -- CSRRC
      let s := s.writeReg (s.csr.readCsr (csrAddr w)) (rd w)
      let data :=
        logicalNot (s.rf.read (rs1 w)) &&& s.csr.readCsr (csrAddr w)
      if rs1 w ≠ 0#5 then
        .retire { s with csr := s.csr.writeCsr (csrAddr w) data } 0 0
      else .retire s 0 0
  | _ => .retire s 0 0 -- immediate CSR instructions not yet supported

/-- The opcode `switch` of `Mcu::executeInstruction`. -/
def executeOpcode (s : Mcu L) (w : U32) : Eval (Arm L) :=
  let immediate := ImmediateGenerator.getImmediate w
  match opcodeOf w with
  | .LUI => .ok (.retire (s.writeReg immediate (rd w)) 0 0)
  | .AUIPC => do
      let aluOutput ← Alu.execute s.pc immediate
        (AluControlUnit.getAluOperation .AUIPC 0 0)
      .ok (.retire (s.writeReg aluOutput (rd w)) 0 0)
  | .JAL => do
      let aluOutput ← Alu.execute s.pc 4
        (AluControlUnit.getAluOperation .JAL 0 0)
      .ok (.retire (s.writeReg aluOutput (rd w)) 0 0)
  | .JALR => do
      let A := s.rf.read (rs1 w)
      let aluOutput ← Alu.execute s.pc 4
        (AluControlUnit.getAluOperation .JALR 0 0)
      .ok (.retire (s.writeReg aluOutput (rd w)) A 0)
  | .BTYPE =>
      .ok (.retire s (s.rf.read (rs1 w)) (s.rf.read (rs2 w)))
  | .LOAD => do
      let (exceptionCode, readValue) ←
        s.busRead (s.rf.read (rs1 w) + immediate)
          (MemControlUnit.getMemSize (funct3 w))
      if exceptionCode ≠ STATUS_OK then .ok (.raise exceptionCode s)
      else do
        let readValue ← initialized readValue
        .ok (.retire (s.writeReg readValue (rd w)) 0 0)
  | .STORE => do
      let (exceptionCode, mem) ←
        s.busWrite (s.rf.read (rs1 w) + immediate) (s.rf.read (rs2 w))
          (MemControlUnit.getMemSize (funct3 w))
      let s := { s with mem := mem }
      if exceptionCode ≠ STATUS_OK then .ok (.raise exceptionCode s)
      else .ok (.retire s 0 0)
  | .ITYPE => do
      let aluOutput ← Alu.execute (s.rf.read (rs1 w)) immediate
        (AluControlUnit.getAluOperation .ITYPE (funct7 w) (funct3 w))
      .ok (.retire (s.writeReg aluOutput (rd w)) 0 0)
  | .RTYPE => do
      let aluOutput ← Alu.execute (s.rf.read (rs1 w)) (s.rf.read (rs2 w))
        (AluControlUnit.getAluOperation .RTYPE (funct7 w) (funct3 w))
      .ok (.retire (s.writeReg aluOutput (rd w)) 0 0)
  | .PRIV => .ok (s.executePriv w)
  | .other => .ok (.raise ILLEGAL_INSTRUCTION s)

/-- The end of `Mcu::executeInstruction`, after the `switch`. -/
def updatePc (s : Mcu L) (w A B : U32) : U32 × Mcu L :=
  let (exceptionCode, nextPc) :=
    NextPc.calculateNextPc s.nextPc (ImmediateGenerator.getImmediate w)
      (opcodeOf w) (funct3 w) A B s.csr.getMepc
  let s := { s with nextPc := nextPc }
  if exceptionCode ≠ STATUS_OK then (exceptionCode, s)
  else (STATUS_OK, { s with pc := nextPc })

/-- `Mcu::executeInstruction`: the code it returns, and the state. -/
def executeInstruction (s : Mcu L) : Eval (U32 × Mcu L) := do
  let (exceptionCode, curInstruction) ← s.busRead s.pc WORD
  if exceptionCode ≠ STATUS_OK then .ok (exceptionCode, s)
  else do
    let w ← initialized curInstruction
    match ← s.executeOpcode w with
    | .raise code s => .ok (code, s)
    | .retire s A B => .ok (s.updatePc w A B)

-- ============================================================== one cycle

/-- The CLINT's cycle. -/
def nextCycle (s : Mcu L) : Mcu L :=
  let (mem, csr) := ClintMemoryDevice.nextCycle (s.mem .clint) s.csr
  { s with mem := Function.update s.mem .clint mem, csr := csr }

/-- The interrupt check after the CLINT's cycle. -/
def checkInterrupts (s : Mcu L) : Bool × U32 :=
  ClintMemoryDevice.checkInterrupts (s.mem .clint) s.interruptType s.csr

/-- The first part of `Mcu::nextInstruction`: the CLINT's cycle, and the
trap entry when it reports an interrupt. -/
def serviceInterrupts (s : Mcu L) : Mcu L :=
  let s := s.nextCycle
  let (interrupt, interruptType) := s.checkInterrupts
  let s := { s with interruptType := interruptType }
  if interrupt then s.takeTrap s.interruptType else s

/-- The second part of `Mcu::nextInstruction`: one instruction, and on an
exception the trap entry and the instruction in the vector slot. -/
def attempt (s : Mcu L) : Eval (Mcu L) := do
  let (exceptionCode, s) ← s.executeInstruction
  if exceptionCode ≠ STATUS_OK then do
    let (_, s) ← (s.takeTrap exceptionCode).executeInstruction
    .ok s
  else .ok s

/-- `Mcu::nextInstruction`. -/
def nextInstruction (s : Mcu L) : Eval (Mcu L) :=
  s.serviceInterrupts.attempt

end Mcu

end T89Emu
