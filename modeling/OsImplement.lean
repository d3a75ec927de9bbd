import OsImplement.Fs.Inodes
import OsImplement.Fs.Listing
import OsImplement.Memory.SortedEntries
import OsImplement.Keyboard.Fifo
import OsImplement.Keyboard.Controls
import OsImplement.Monitor.Terminal
import OsImplement.Memory.Ownership
import OsImplement.Memory.Isolation
import OsImplement.Memory.Boot
import OsImplement.Memory.FirstFit
import OsImplement.Memory.Walks
import OsImplement.Memory.Machine
import OsImplement.Memory.Shared
import OsImplement.Memory.Release
import OsImplement.Memory.Physical
import OsImplement.Memory.HeapCalls
import OsImplement.Memory.HeapFree
import OsImplement.Memory.HeapAligned
import OsImplement.Memory.HeapBacking
import OsImplement.Memory.HeapMiss
import OsImplement.Memory.HeapBounds
import OsImplement.Memory.HeapFreed
import OsImplement.Memory.HeapRecursion
import OsImplement.Shell.Kill
import OsImplement.Shell.Bounds
import OsImplement.Task.RoundRobin
import OsImplement.Task.Exit
import OsImplement.Task.Spinlock
import OsImplement.Task.Termination
import OsImplement.Task.Ending
import OsImplement.Task.StackPages
import OsImplement.Interrupt.Stubs
import OsImplement.Interrupt.Loading
import OsImplement.Interrupt.Dispatch
import OsImplement.Interrupt.Exceptions
import OsImplement.Memory.CopyPage
import OsImplement.Task.Time
import OsImplement.Task.Display
import OsImplement.Keyboard.Interleaved
import OsImplement.Keyboard.Lines
import OsImplement.Fs.Display
import OsImplement.Shell.Files
import OsImplement.Memory.Status
import OsImplement.Memory.HeapContents
import OsImplement.Memory.Placement
import OsImplement.Fs.Writes
