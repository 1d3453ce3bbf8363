import NxMemTest.Interaction.Pool
import NxMemTest.ChunkSpec
import NxMemTest.VerifySpec
import NxMemTest.Runner
import NxMemTest.PassTrace
import NxMemTest.Confinement
import NxMemTest.Board
import NxMemTest.PassSpec
import NxMemTest.Reference
import NxMemTest.StopSemantics
import NxMemTest.Checksum
import NxMemTest.Intermittent
import NxMemTest.Faults
import NxMemTest.PartitionRun
import NxMemTest.StuckBits
import NxMemTest.Aliasing
import NxMemTest.SharedMemory
import NxMemTest.MainLoop
import NxMemTest.MainTrace
import NxMemTest.Verdict
import NxMemTest.Coverage
import NxMemTest.ReportAlgebra
import NxMemTest.WriterSpec
import NxMemTest.NeonSpec
import NxMemTest.MemoryMap
import NxMemTest.SharedAliasing
import NxMemTest.Progress
import NxMemTest.Lib.Division
import NxMemTest.Lib.Checked
import NxMemTest.Percent
import NxMemTest.Passes
import NxMemTest.PassesCompleted
import NxMemTest.StressPass
import NxMemTest.VerifiedArena
import NxMemTest.FirstError
import NxMemTest.Mixers
import NxMemTest.PassShift
import NxMemTest.ArenaSpec
import NxMemTest.PressureBlind
import NxMemTest.GpuStorage
import NxMemTest.GpuVerify
import NxMemTest.GpuPumpStart
import NxMemTest.CellFaults
import NxMemTest.TransitionFaults
import NxMemTest.WriteDisturb
import NxMemTest.Interaction.Interference
import NxMemTest.ThreadedRun
import NxMemTest.ThreadedWorld
import NxMemTest.ThreadedRefine
import NxMemTest.ThreadedPass
import NxMemTest.ThreadedMain
import NxMemTest.ThreadedSafety
import NxMemTest.Interaction.Budget
import NxMemTest.StopLatency
import NxMemTest.Interaction.Protocol
import NxMemTest.GpuLedger
import NxMemTest.GpuPumpThread
import NxMemTest.GpuPumpSetup
import NxMemTest.GpuPumpLoop
import NxMemTest.GpuPumpLoop
import NxMemTest.GpuPumpSafety
import NxMemTest.GpuBench
