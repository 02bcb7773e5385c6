import T89Emu.Lib.Eval
import T89Emu.Lib.Bytes
import T89Emu.Lib.FirstMatch
import T89Emu.Lib.Run
import T89Emu.Architecture
import T89Emu.Memory.Device
import T89Emu.Core.Csr
import T89Emu.Core.Datapath
import T89Emu.Core.Mcu
import T89Emu.Memory.Proofs.ByteArray
import T89Emu.Core.Proofs.Bounds
import T89Emu.Core.Proofs.Step
import T89Emu.Core.Proofs.Trap
import T89Emu.Core.Proofs.Precise
import T89Emu.Core.Proofs.ReadOnly
import T89Emu.Core.Proofs.Drift
import T89Emu.Core.Proofs.Decode
import T89Emu.Core.Proofs.Registers
import T89Emu.Core.Proofs.Aligned
import T89Emu.Core.Proofs.Arithmetic
import T89Emu.Core.Proofs.CsrAccess
import T89Emu.Core.Proofs.Load
import T89Emu.Core.Proofs.Jump
import T89Emu.Core.Proofs.FetchFault
import T89Emu.Core.Proofs.Interrupt
import T89Emu.Core.Proofs.Pending
import T89Emu.Core.Proofs.TrapReturn
import T89Emu.Core.Proofs.Transparent
import T89Emu.Core.Proofs.Counter
import T89Emu.Core.Proofs.CsrProtection
import T89Emu.Core.Proofs.Immediate
import T89Emu.Gui.LcdDisplay
import T89Emu.Gui.Proofs.Framebuffer
import T89Emu.Lib.Decode
import T89Emu.Lib.Process
import T89Emu.Debug.McuDebug
import T89Emu.Debug.Proofs.Breakpoint
import T89Emu.Debug.Proofs.SourceLine
import T89Emu.Debug.Proofs.BreakpointSet
import T89Emu.Debug.Proofs.SourceStep
import T89Emu.Dwarf.DwarfExpr
import T89Emu.Dwarf.Proofs.Attribute
import T89Emu.Dwarf.Proofs.CallFrame
import T89Emu.Dwarf.Proofs.CfaInForce
import T89Emu.Dwarf.Proofs.DebugInfo
import T89Emu.Dwarf.Proofs.LineProgram
import T89Emu.Dwarf.Proofs.LineTables
import T89Emu.Dwarf.Proofs.Location
import T89Emu.Dwarf.Proofs.Leb128
import T89Emu.Dwarf.Proofs.Abbreviation
import T89Emu.Dwarf.Proofs.UnknownOpcode
import T89Emu.Dwarf.Proofs.LineSafety
import T89Emu.Dwarf.Proofs.LineLookup
import T89Emu.Dwarf.Proofs.FrameEntries
import T89Emu.Dwarf.Proofs.UnwindTable
import T89Emu.Dwarf.Proofs.UnitLookup
import T89Emu.Dwarf.Proofs.UnitWalk
import T89Emu.Dwarf.Proofs.DieOffsets
import T89Emu.Dwarf.Proofs.ScopeTree
import T89Emu.Dwarf.Proofs.Visible
import T89Emu.Elf.Proofs.Segments
import T89Emu.Elf.Proofs.Loading
import T89Emu.Elf.Proofs.Sections
import T89Emu.Elf.Proofs.Flash
import T89Emu.Elf.Disassembler
import T89Emu.Elf.Proofs.Operation
import T89Emu.Elf.Proofs.Disassembler
import T89Emu.Elf.Proofs.Printing
import T89Emu.Lib.Rv32.Machine
import T89Emu.Lib.Rv32.Assembly
import T89Emu.Lib.Fill
import T89Emu.Isa.Proofs.Encoding
import T89Emu.Isa.Proofs.Simulation
import T89Emu.Core.Proofs.Place
import T89Emu.Core.Proofs.Spin
import T89Emu.Core.Proofs.Exception
import T89Emu.Core.Proofs.Unread
import T89Emu.Debug.Proofs.Image
import T89Emu.Gui.Application
import T89Emu.Gui.Proofs.Application
import T89Emu.Firmware.Interrupt
import T89Emu.Firmware.Guest
import T89Emu.Firmware.Bootup
import T89Emu.Firmware.Terminal
import T89Emu.Firmware.Proofs.Interrupt
import T89Emu.Firmware.Proofs.Guest
import T89Emu.Firmware.Proofs.Bootup
import T89Emu.Firmware.Proofs.Terminal
import T89Emu.Lib.Collect
import T89Emu.Lib.Distinct
import T89Emu.Dwarf.Proofs.SourceFiles
import T89Emu.Elf.DisassembledCode
import T89Emu.Elf.Proofs.DisassembledCode
import T89Emu.Gui.Disassembly
import T89Emu.Gui.Proofs.Disassembly
import T89Emu.Gui.DebugSource
import T89Emu.Gui.Proofs.DebugSource
import T89Emu.Gui.MemoryViewer
import T89Emu.Gui.Proofs.MemoryViewer
import T89Emu.Firmware.Crt0
import T89Emu.Firmware.Proofs.Crt0
import T89Emu.Elf.Proofs.RoundTrip
import T89Emu.Dwarf.Proofs.FileTables
import T89Emu.Dwarf.Proofs.RoundTrip
