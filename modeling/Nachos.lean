import Nachos.Bin.Coff2noff
import Nachos.Filesys.AccessRights
import Nachos.Filesys.Allocation
import Nachos.Filesys.Capacity
import Nachos.Filesys.Consistency
import Nachos.Filesys.Crash
import Nachos.Filesys.CreateFile
import Nachos.Filesys.Directory
import Nachos.Filesys.Disk
import Nachos.Filesys.DiskFileSystem
import Nachos.Filesys.FileBytes
import Nachos.Filesys.FileNames
import Nachos.Filesys.FileSystem
import Nachos.Filesys.FileTable
import Nachos.Filesys.OpenFiles
import Nachos.Filesys.SynchDisk
import Nachos.Filesys.TransferSizes
import Nachos.Library.BlockWrite
import Nachos.Library.Confined
import Nachos.Library.Decimal
import Nachos.Library.DoubleWord
import Nachos.Library.LinkedCells
import Nachos.Library.Monitor
import Nachos.Library.Ownership
import Nachos.Library.Periodic
import Nachos.Library.Places
import Nachos.Library.Ranges
import Nachos.Library.Refinement
import Nachos.Library.Transition
import Nachos.Library.WordBytes
import Nachos.Machine.Arithmetic
import Nachos.Machine.DelaySlots
import Nachos.Machine.DiskLatency
import Nachos.Machine.Endings
import Nachos.Machine.FlatMemory
import Nachos.Machine.Footprint
import Nachos.Machine.Interrupt
import Nachos.Machine.InterruptOrder
import Nachos.Machine.Isa
import Nachos.Machine.IsaSwitch
import Nachos.Machine.Multiply
import Nachos.Machine.Precise
import Nachos.Machine.Restart
import Nachos.Network.PostOffice
import Nachos.Test.TokenPassing
import Nachos.Threads.ConsoleRead
import Nachos.Threads.ConsoleWrite
import Nachos.Threads.ContextSwitch
import Nachos.Threads.LineBlock
import Nachos.Threads.LinkedList
import Nachos.Threads.ReadyOrder
import Nachos.Threads.Reclaim
import Nachos.Threads.Scheduler
import Nachos.Threads.SemaphoreRuns
import Nachos.Userprog.BadPointers
import Nachos.Userprog.BitmapSet
import Nachos.Userprog.Exception
import Nachos.Userprog.Faults
import Nachos.Userprog.Hazards
import Nachos.Userprog.IsaRefinement
import Nachos.Userprog.LoadedBytes
import Nachos.Userprog.PrintInt
import Nachos.Userprog.Process.Creator
import Nachos.Userprog.Process.DeadPcb
import Nachos.Userprog.Process.Exit
import Nachos.Userprog.Process.OutOfMemory
import Nachos.Userprog.Process.PidTable
import Nachos.Userprog.ReadFile
import Nachos.Userprog.RegisterFile
import Nachos.Userprog.Residue
import Nachos.Userprog.SemNames
import Nachos.Userprog.SemTable
import Nachos.Userprog.Stubs
import Nachos.Userprog.WriteFile
