import Simos.Mm.HeapRuns
import Simos.Thread.Sync
import Simos.Mm.PageRuns
import Simos.Kernel.Queue
import Simos.Thread.ScheduleRuns
import Simos.Thread.SemaphoreRuns
import Simos.Thread.LockRuns
import Simos.Device.IoqueuePair
import Simos.Device.Keyboard
import Simos.Mm.KernelMap
import Simos.Thread.InitialStacks
import Simos.Device.IdeWrite
import Simos.Device.IdeHandshake
import Simos.Device.PartitionRuns
import Simos.Kernel.BitmapReturns
import Simos.Mm.PageFailure
import Simos.Thread.TimeSlices
import Simos.Thread.Pids
import Simos.Kernel.TrapRuns
import Simos.Thread.IrqStatus
import Simos.Library.Paper
import Simos.Kernel.PutChar
import Simos.Kernel.PutCharPaper
import Simos.Kernel.PutCharRuns
import Simos.Kernel.Terminal
import Simos.Stdio.Terminator
import Simos.Kernel.PutHexRuns
import Simos.Device.KeyEcho
import Simos.Device.KeyChars
import Simos.Device.Timer
import Simos.Boot.MemoryMap
import Simos.Kernel.QueueRuns
import Simos.Library.Overtaking
import Simos.Thread.Starvation
import Simos.Library.Sections
import Simos.Thread.Sections
import Simos.Device.Console
import Simos.Stdio.Printf
import Simos.Boot.SetupPage
import Simos.Library.VirtualMemory
import Simos.Mm.TableSwitch
import Simos.Library.Elf32
import Simos.Boot.KernelInit
import Simos.Boot.ReadDisk
import Simos.Boot.MemorySize
import Simos.Boot.Startup
import Simos.Kernel.InterruptTables
import Simos.Kernel.InterruptRuns
