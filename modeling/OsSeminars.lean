import OsSeminars.Foundation.TransitionSystem
import OsSeminars.Foundation.MachineInt
import OsSeminars.Foundation.Pipe
import OsSeminars.Foundation.Monitor
import OsSeminars.Foundation.ForkJoin
import OsSeminars.Foundation.Search
import OsSeminars.Foundation.FdTable
import OsSeminars.Foundation.Datagrams
import OsSeminars.Foundation.Signals
import OsSeminars.Foundation.Memory
import OsSeminars.Foundation.AnsweredLoop
import OsSeminars.Foundation.Fallible
import OsSeminars.Foundation.Traced
import OsSeminars.Foundation.StableSort
import OsSeminars.Foundation.CarryChain
import OsSeminars.Foundation.Termination
import OsSeminars.Foundation.ByteMemory
import OsSeminars.Foundation.Assembly
import OsSeminars.Foundation.A64
import OsSeminars.Foundation.X64Scalar
import OsSeminars.Foundation.X64
import OsSeminars.Foundation.X64Stack
import OsSeminars.Foundation.Avx
import OsSeminars.Foundation.Buffer
import OsSeminars.Foundation.IntBytes
import OsSeminars.Foundation.ScanInt
import OsSeminars.Foundation.FileContents
import OsSeminars.Foundation.ByteStream
import OsSeminars.Foundation.InetAddress
import OsSeminars.Foundation.Getopt
import OsSeminars.Foundation.PauseOnce
import OsSeminars.Foundation.A64Calls
import OsSeminars.Foundation.Branching
import OsSeminars.Foundation.CString
import OsSeminars.Foundation.ForkedOutput
import OsSeminars.Foundation.FormatText
import OsSeminars.Foundation.NamedPipe
import OsSeminars.Foundation.Numeral
import OsSeminars.Foundation.OpenFiles
import OsSeminars.Foundation.OutStream
import OsSeminars.Foundation.ProcessTable
import OsSeminars.Foundation.Shell
import OsSeminars.Foundation.Stdio
import OsSeminars.Foundation.StructField
import OsSeminars.PagingMmap.FindSubstrings
import OsSeminars.PagingMmap.AllOccurrences
import OsSeminars.PagingMmap.SearchTermination
import OsSeminars.DupPipe.PipeSimple
import OsSeminars.DupPipe.PipeSimpleRuns
import OsSeminars.DupPipe.UnclosedReader
import OsSeminars.DupPipe.PipeLaunch
import OsSeminars.DupPipe.PipeConcurrent
import OsSeminars.DupPipe.FifoReaderWriter
import OsSeminars.DupPipe.FifoRuns
import OsSeminars.DupPipe.Dup2Stdout
import OsSeminars.DupPipe.DupFiles
import OsSeminars.DupPipe.PipeBufferOverflow
import OsSeminars.Threads.Server
import OsSeminars.Threads.MutexExample
import OsSeminars.Threads.MutexBlocks
import OsSeminars.Threads.MutexSequential
import OsSeminars.Threads.MutexDump
import OsSeminars.Threads.ThreadsMutex
import OsSeminars.Threads.MutexRing
import OsSeminars.Threads.CondVarExample
import OsSeminars.Threads.CondVarFilling
import OsSeminars.Threads.CondVarWakeup
import OsSeminars.Threads.ServerCalls
import OsSeminars.Threads.CreateJoin
import OsSeminars.Threads.SetStackSize
import OsSeminars.Threads.SetStackSizeRuns
import OsSeminars.Signals.CountSigint
import OsSeminars.Signals.CountSigintRuns
import OsSeminars.Signals.RtSignals
import OsSeminars.Signals.RtSignalsRuns
import OsSeminars.Signals.RtSignalsExit
import OsSeminars.Signals.DelayedSignalHandler
import OsSeminars.Signals.AwaitedSignals
import OsSeminars.Networking.EpollReadFdsVector
import OsSeminars.Networking.EpollEntries
import OsSeminars.Networking.EpollFilesLeft
import OsSeminars.Networking.EpollCounting
import OsSeminars.Networking.EpollBatches
import OsSeminars.Networking.EpollEnded
import OsSeminars.Networking.UdpClient
import OsSeminars.Networking.TcpClient
import OsSeminars.Networking.ScannedRequests
import OsSeminars.Networking.ClientRequests
import OsSeminars.Networking.ReadNonblock
import OsSeminars.Networking.ReadNonblockRuns
import OsSeminars.Networking.ReadSlow
import OsSeminars.Networking.UdpHello
import OsSeminars.Networking.SleepyServer
import OsSeminars.AvxX86.Compiler
import OsSeminars.AvxX86.Intro64
import OsSeminars.AvxX86.Intro64Bounds
import OsSeminars.AvxX86.Intro64Sums
import OsSeminars.Files.ReadFromStdin
import OsSeminars.Files.ReadFilterWrite
import OsSeminars.Files.Lseek
import OsSeminars.Files.FileSumm
import OsSeminars.Files.ReadFilterFds
import OsSeminars.EjudgeExporter.EjudgeParser
import OsSeminars.EjudgeExporter.ProblemPages
import OsSeminars.EjudgeExporter.SavedProblems
import OsSeminars.EjudgeExporter.SelectedSolution
import OsSeminars.EjudgeExporter.SessionToken
import OsSeminars.EjudgeExporter.LanguageTable
import OsSeminars.BinaryRepresentation.AluSum
import OsSeminars.ArmAsm.DataSection
import OsSeminars.ArmAsm.StructDump
import OsSeminars.ArmAsm.AsmPrintf
import OsSeminars.X86Asm.MySum
import OsSeminars.X86Asm.Basics64
import OsSeminars.Kernel.SyscallWrapper
import OsSeminars.ForkAndExec.ForkChain
import OsSeminars.ForkAndExec.ForkChainRuns
import OsSeminars.ForkAndExec.PyExec
import OsSeminars.ForkAndExec.ExecChangeFd
import OsSeminars.ForkAndExec.ForkedOutputs
import OsSeminars.ForkAndExec.ForkBomb
import OsSeminars.CryptoBasics.DgstSha512
import OsSeminars.DevTools.SimpleTestTool
