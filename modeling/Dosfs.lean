import Dosfs.Foundation.ByteMemory
import Dosfs.Foundation.Chain
import Dosfs.Foundation.Walk
import Dosfs.Foundation.Run
import Dosfs.Foundation.Bitmap
import Dosfs.Foundation.LinkedList
import Dosfs.Foundation.Ring
import Dosfs.Foundation.RoundRobin
import Dosfs.Foundation.SlotTable
import Dosfs.Foundation.SlotSearch
import Dosfs.Foundation.Fuelled
import Dosfs.Foundation.Reading
import Dosfs.Foundation.Logged
import Dosfs.Foundation.Terminal
import Dosfs.Foundation.Document
import Dosfs.Foundation.Circular
import Dosfs.Foundation.OnesComplement
import Dosfs.Foundation.Worklist
import Dosfs.Foundation.Output
import Dosfs.Libc.String
import Dosfs.Libc.Numerals
import Dosfs.Libc.Atoi
import Dosfs.Libc.Snprintf
import Dosfs.Fs.Fat16.Name
import Dosfs.Fs.Fat16.NameFields
import Dosfs.Fs.Fat16.Driver
import Dosfs.Fs.Fat16.Volume
import Dosfs.Fs.Fat16.Steps
import Dosfs.Fs.Fat16.Directory
import Dosfs.Fs.Fat16.Mount
import Dosfs.Fs.Fat16.Write
import Dosfs.Fs.Fat16.Consistency
import Dosfs.Fs.Fat16.Faults
import Dosfs.Fs.Fat16.Table
import Dosfs.Fs.Fat16.RoundTrip
import Dosfs.Fs.Fat16.Reading
import Dosfs.Fs.Fat16.CorruptChains
import Dosfs.Fs.Fat16.Deleting
import Dosfs.Fs.Fat16.ScanAgreement
import Dosfs.Fs.Fat16.Allocation
import Dosfs.Fs.Fat16.FailedWrite
import Dosfs.Fs.Fat16.Sessions
import Dosfs.Fs.Fat16.Clusters
import Dosfs.Fs.Tmpfs
import Dosfs.Fs.TmpfsSlots
import Dosfs.Fs.TmpfsNames
import Dosfs.Shell.Files
import Dosfs.Drivers.Vga
import Dosfs.Drivers.VgaPrintf
import Dosfs.Drivers.VgaText
import Dosfs.Drivers.RtcFormat
import Dosfs.Drivers.Keyboard
import Dosfs.Drivers.VgaCells
import Dosfs.Drivers.Console
import Dosfs.Drivers.Pci
import Dosfs.Drivers.PciScan
import Dosfs.Drivers.Ata
import Dosfs.Drivers.Rtc
import Dosfs.Drivers.Ne2000
import Dosfs.Drivers.Ne2000Ring
import Dosfs.Tools.Editor
import Dosfs.Tools.EditorRows
import Dosfs.Tools.EditorText
import Dosfs.Tools.EditorSaving
import Dosfs.Tools.EditorReopening
import Dosfs.Tools.EditorKeys
import Dosfs.Tools.EditorRun
import Dosfs.Tools.CpuSim
import Dosfs.Tools.CpuFlags
import Dosfs.Tools.CpuProgram
import Dosfs.Tools.CpuStack
import Dosfs.Tools.CpuText
import Dosfs.Shell.Commands
import Dosfs.Memory.Pmm
import Dosfs.Memory.PmmRefinement
import Dosfs.Memory.Vmm
import Dosfs.Memory.PageTables
import Dosfs.Memory.VmmRefinement
import Dosfs.Memory.Permissions
import Dosfs.Memory.Heap
import Dosfs.Memory.HeapBlocks
import Dosfs.Memory.HeapInvariant
import Dosfs.Memory.HeapRuns
import Dosfs.Memory.HeapContents
import Dosfs.Memory.HeapCapacity
import Dosfs.Memory.HeapPages
import Dosfs.Memory.HeapSizes
import Dosfs.Process.Scheduler
import Dosfs.Memory.AddressSpace
import Dosfs.Kernel.Boot
import Dosfs.Kernel.Supervisor
import Dosfs.Kernel.HeapWindow
import Dosfs.Kernel.Idt
import Dosfs.Shell.Calc
import Dosfs.Process.SchedulerInvariant
import Dosfs.Process.StackPages
import Dosfs.Process.RoundRobin
import Dosfs.Process.UserStacks
import Dosfs.Process.OutOfMemory
import Dosfs.Process.Ipc
import Dosfs.Process.Messaging
import Dosfs.Syscall.Handler
import Dosfs.Syscall.StackBuffers
import Dosfs.Net.Packet
import Dosfs.Net.State
import Dosfs.Net.Stack
import Dosfs.Net.Api
import Dosfs.Net.Steps
import Dosfs.Net.Moves
import Dosfs.Net.TcpBuffer
import Dosfs.Net.Payload
import Dosfs.Net.Checksum
import Dosfs.Net.TcpStream
import Dosfs.Net.Waiting
import Dosfs.Net.RxQueue
import Dosfs.Net.Peer
import Dosfs.Net.PollSteps
import Dosfs.Net.UdpDelivery
import Dosfs.Net.DnsReply
import Dosfs.Net.DnsName
import Dosfs.Net.DnsAnswers
import Dosfs.Net.Emission
import Dosfs.Net.HostAddress
import Dosfs.Net.Timeouts
import Dosfs.Net.SendBuffers
import Dosfs.Net.SendResult
import Dosfs.Net.ArpBinding
import Dosfs.Foundation.Shared
import Dosfs.Foundation.Mailbox
import Dosfs.Foundation.Calls
import Dosfs.Drivers.Ne2000Ports
import Dosfs.Drivers.Ne2000Transfers
import Dosfs.Drivers.Ne2000Send
import Dosfs.Drivers.Ne2000Polling
import Dosfs.Drivers.Ne2000Calls
import Dosfs.Drivers.KeyboardBuffer
import Dosfs.Shell.Line
import Dosfs.Shell.FileCommands
import Dosfs.Drivers.Acpi
import Dosfs.Kernel.AcpiPages
import Dosfs.Shell.Curl
import Dosfs.Tools.AcpiSim
import Dosfs.Tools.AcpiText
import Dosfs.Tools.PowerUnit
import Dosfs.Tools.AcpiSnapshot
import Dosfs.Shell.Hexdump
