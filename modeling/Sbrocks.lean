import Sbrocks.Mmu.FrameRuns
import Sbrocks.Mmu.TableBounds
import Sbrocks.Mmu.AddressSpaces
import Sbrocks.Process.Scheduler
import Sbrocks.Process.ContextSwitch
import Sbrocks.Syscall.Calls
import Sbrocks.Chain.Linked
import Sbrocks.System.Tasks
import Sbrocks.System.Blocking
import Sbrocks.System.Typing
import Sbrocks.Fs.Listing
import Sbrocks.Fs.Cursor
import Sbrocks.Fs.Indexing
import Sbrocks.Mmu.FreeRegions
import Sbrocks.System.Faults
import Sbrocks.Mmu.KernelHeap
import Sbrocks.Libc.Heap
import Sbrocks.Sbush.Parsing
import Sbrocks.Mmu.DirectMap
import Sbrocks.Mmu.FreeTables
import Sbrocks.Process.Release
import Sbrocks.Fs.Reached
import Sbrocks.Syscall.Strings
import Sbrocks.System.MissingFile
import Sbrocks.System.Redirections
import Sbrocks.System.Sleeping
import Sbrocks.Process.Clock
import Sbrocks.Process.RoundRobin
import Sbrocks.Process.TaskStructs
import Sbrocks.Process.LineEditing
import Sbrocks.Libc.Refusals
import Sbrocks.Libc.Formats
import Sbrocks.System.RoundTrip
import Sbrocks.Fs.Octal
import Sbrocks.Sbush.Trimming
import Sbrocks.Sbush.Searching
import Sbrocks.Process.Console
import Sbrocks.Process.Stubs
import Sbrocks.Sbush.ReadInput
import Sbrocks.System.PipeKeys
import Sbrocks.Process.CopyOnWrite
import Sbrocks.Sbush.Blocks
import Sbrocks.Sbush.Scripts
import Sbrocks.System.Frames
import Sbrocks.Process.Terminal
import Sbrocks.Libc.Directives
import Sbrocks.Process.StatusLine
import Sbrocks.System.Children
import Sbrocks.Sbush.Processes
import Sbrocks.Sbush.Pipelines
import Sbrocks.System.Ports
