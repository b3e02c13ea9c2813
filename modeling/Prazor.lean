import Prazor.Arm.AccessFaults
import Prazor.Arm.Alu
import Prazor.Arm.Armisa
import Prazor.Arm.BlockAborts
import Prazor.Arm.BranchTargetBuffer
import Prazor.Arm.BranchTargets
import Prazor.Arm.Branches
import Prazor.Arm.Breakpoints
import Prazor.Arm.Cp15
import Prazor.Arm.IfThen
import Prazor.Arm.InstructionFetch
import Prazor.Arm.IpcAnalysis
import Prazor.Arm.Media
import Prazor.Arm.Mmu
import Prazor.Arm.MmuFaults
import Prazor.Arm.Multiply
import Prazor.Arm.RegisterFile
import Prazor.Arm.SingleTransfer
import Prazor.Arm.ShifterOperand
import Prazor.Arm.TlbInvalidation
import Prazor.Arm.TlbTransparency
import Prazor.Arm.TrampolineBypass
import Prazor.Arm.TranslationBase
import Prazor.Arm.L2Controller
import Prazor.Bus.AccessWidths
import Prazor.Bus.AckMerging
import Prazor.Bus.Arbitration
import Prazor.Bus.CpuBusaccess
import Prazor.Bus.HomeNode
import Prazor.Bus.LaneMemory
import Prazor.Bus.SriOwnership
import Prazor.Bus.Vmunit64
import Prazor.Caches.Ccache
import Prazor.Caches.Cluster
import Prazor.Caches.Effects
import Prazor.Caches.Flights
import Prazor.Caches.HeldLocks
import Prazor.Caches.Isolation
import Prazor.Caches.LineCleaning
import Prazor.Caches.LockProtocol
import Prazor.Caches.Maintenance
import Prazor.Caches.Moves
import Prazor.Caches.OperationSpecs
import Prazor.Caches.Operations
import Prazor.Caches.Pieces
import Prazor.Caches.Runs
import Prazor.Caches.SingleWriter
import Prazor.Caches.StatusWord
import Prazor.Caches.Steps
import Prazor.Caches.SnoopBuffers
import Prazor.Caches.SnoopLoop
import Prazor.Caches.WriteOutcome
import Prazor.Caches.AddressSplit
import Prazor.Core.AddWithCarry
import Prazor.Core.ArraySizes
import Prazor.Core.ArrayMap
import Prazor.Core.Assignments
import Prazor.Core.BumpArena
import Prazor.Core.Guarded
import Prazor.Core.Layers
import Prazor.Core.Machine
import Prazor.Core.Mutex
import Prazor.Core.Numerals
import Prazor.Core.Payload
import Prazor.Core.RadixTree
import Prazor.Core.RingBuffer
import Prazor.Core.Shifts
import Prazor.Core.SlotPool
import Prazor.Core.TaggedLines
import Prazor.Core.WordBits
import Prazor.Crt.Atoi
import Prazor.Crt.Getopt
import Prazor.Crt.Barrier
import Prazor.Crt.BarrierRounds
import Prazor.Crt.FileInput
import Prazor.Crt.FileOutput
import Prazor.Crt.HeapHistory
import Prazor.Crt.Malloc
import Prazor.Crt.Memset
import Prazor.Crt.NumberOutput
import Prazor.Crt.Printf
import Prazor.Crt.ThreadLife
import Prazor.Crt.Threads
import Prazor.Devices.ArmTimers
import Prazor.Devices.GlobalTimer
import Prazor.Devices.TimerRegisters
import Prazor.Devices.TimerTraps
import Prazor.Devices.UartDriver
import Prazor.Devices.CannedInput
import Prazor.Devices.UartRegisters
import Prazor.Devices.SdioTransfers
import Prazor.Gic.Acknowledge
import Prazor.Gic.CpuInterface
import Prazor.Gic.Distribution
import Prazor.Gic.Distributor
import Prazor.Gic.RegisterMap
import Prazor.Gic.Runs
import Prazor.Gic.SoftwareInterrupts
import Prazor.Matrix.CpuDriven
import Prazor.Matrix.Device
import Prazor.Matrix.HostProgram
import Prazor.Matrix.Software
import Prazor.Memory.BufferedAccesses
import Prazor.Memory.Cache64
import Prazor.Memory.Cache64Transparency
import Prazor.Memory.CachedLines
import Prazor.Memory.Doubleword
import Prazor.Memory.Exclusivity
import Prazor.Memory.GenericTlmMem
import Prazor.Memory.ElfMemory
import Prazor.Memory.IntelHex
import Prazor.Memory.LlscLocks
import Prazor.Memory.LlscPairs
import Prazor.Memory.SecondaryCache
import Prazor.Memory.SecondaryLines
import Prazor.Memory.SecondaryTransparency
import Prazor.Memory.SparsePages
import Prazor.Tenos.BranchPredictor
import Prazor.Tenos.TraceRegions
import Prazor.Utils.EnergyShim
import Prazor.Devices.SdioCbg
import Prazor.Devices.SdioRegisters
import Prazor.Mips.IntegerResults
import Prazor.Mips.ControlFlow
import Prazor.Bus.AtomicExchange
import Prazor.Core.EscapeCode
import Prazor.Arm.Encodings
import Prazor.Arm.DataWords
import Prazor.Arm.ThumbDataProcessing
import Prazor.Arm.ExtraTransfers
import Prazor.Arm.ThumbTransfers
import Prazor.Core.PointerChains
import Prazor.Core.LinearCongruence
import Prazor.Core.AppendStreams
import Prazor.Gdbrsp.RspConnection
import Prazor.Gdbrsp.Packets
import Prazor.Tenos.MpHash
import Prazor.Tenos.SymbolTable
import Prazor.Tenos.ArgvBackdoor
import Prazor.Crt.Random
