import Nachos.Library.Runs
import Nachos.Library.Ownership
import Nachos.Library.LittleEndian
import Nachos.Model.Utility
import Nachos.Model.BitMap
import Nachos.Model.Semaphore
import Nachos.Model.SemaphoreTable
import Nachos.Model.Disk
import Nachos.Model.SynchDisk
import Nachos.Model.Machine
import Nachos.Model.AddrSpace
import Nachos.Model.OpenFile
import Nachos.Model.FileSystem
import Nachos.Model.ProcessTable
import Nachos.Analysis.WordArithmetic
import Nachos.Analysis.BitMapSet
import Nachos.Analysis.SemaphoreRuns
import Nachos.Analysis.SemaphoreTableBound
import Nachos.Analysis.SynchDiskExclusion
import Nachos.Analysis.FrameOwnership
import Nachos.Analysis.MemoryIsolation
import Nachos.Analysis.FileContents
import Nachos.Analysis.DirectoryTable
import Nachos.Analysis.SectorAllocation
import Nachos.Analysis.SectorOwnership
import Nachos.Analysis.FileSystemRuns
import Nachos.Analysis.ProcessTableSteps
import Nachos.Analysis.PcbInitialisation
import Nachos.Analysis.CallerIdentity
import Nachos.Analysis.SlotLifetimes
import Nachos.Analysis.JoinSignals
import Nachos.Analysis.ConsoleOutput
import Nachos.Analysis.ThreadPlaces
import Nachos.Analysis.NameBufferLifetimes
import Nachos.Model.FileCalls
import Nachos.Model.StubFileSystem
import Nachos.Analysis.StubDescriptors
import Nachos.Model.DescriptorTable
import Nachos.Analysis.DescriptorAliases
import Nachos.Analysis.FileLookup
import Nachos.Analysis.ReadOnlyDescriptors
import Nachos.Analysis.FileCallCases
import Nachos.Analysis.StaleHandles
import Nachos.Model.NamedProcesses
import Nachos.Analysis.SlotBookkeeping
import Nachos.Analysis.UserSteps
import Nachos.Analysis.ChildLoading
import Nachos.Analysis.SystemCallReturns
import Nachos.Analysis.ConsoleInput
import Nachos.Analysis.MailDelivery
import Nachos.Analysis.LoaderAgreement
import Nachos.Analysis.CopyBounds
import Nachos.Model.Coff2noff
import Nachos.Analysis.CoffConversion
import Nachos.Analysis.ExecRefusals
import Nachos.Library.ArrayCursor
import Nachos.Analysis.FileAccess
import Nachos.Analysis.FileCreation
import Nachos.Analysis.DirectoryMap
import Nachos.Analysis.UserMemory
import Nachos.Library.InPlace
import Nachos.Model.ConsoleCalls
import Nachos.Analysis.ConsoleTexts
import Nachos.Analysis.ConsoleLines
import Nachos.Model.ExceptionHandler
import Nachos.Analysis.FileTransfers
import Nachos.Analysis.CallResults
import Nachos.Analysis.InstructionResults
import Nachos.Analysis.BitMapSubset
import Nachos.Analysis.CopyRoundTrip
import Nachos.Analysis.Multiplication
import Nachos.Analysis.ThreadReaping
import Nachos.Analysis.PagedMemory
import Nachos.Analysis.ListSequence
import Nachos.Analysis.InterruptOrder
import Nachos.Analysis.SimulatorCommands
import Nachos.Analysis.PreciseExceptions
import Nachos.Analysis.SimulatorRefinement
import Nachos.Model.Switch
import Nachos.Analysis.ContextSwitch
import Nachos.Library.Rotation
import Nachos.Model.DiskTiming
import Nachos.Analysis.DiskLatency
import Nachos.Analysis.ProcessSeparation
import Nachos.Library.ByteMemory
