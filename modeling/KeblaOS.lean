import KeblaOS.Lib.Buffer
import KeblaOS.Fat32.Bpb
import KeblaOS.Fat32.Volume
import KeblaOS.Lib.Chain
import KeblaOS.Fat32.Cluster
import KeblaOS.Fat32.File
import KeblaOS.Fat32.FileEffect
import KeblaOS.Fat32.FileRefinement
import KeblaOS.Fat32.FatTable
import KeblaOS.Fat32.Allocator
import KeblaOS.Scheduling.RoundRobin
import KeblaOS.Scheduling.ContextSwitch
import KeblaOS.Memory.Paging
import KeblaOS.Memory.Ranges
import KeblaOS.Memory.TableLevels
import KeblaOS.Memory.Frames
import KeblaOS.Fat32.DirEntry
import KeblaOS.Fat32.Directory
import KeblaOS.Fat32.ChangeDirectory
import KeblaOS.Fat32.Format
import KeblaOS.Fat32.DirectoryScan
import KeblaOS.Fat32.DirectoryUpdate
import KeblaOS.Fat32.DirectoryCalls
import KeblaOS.Fat32.ShortNames
import KeblaOS.Fat32.DirectoryTree
import KeblaOS.Fat32.ParentPaths
import KeblaOS.Fat32.Session
import KeblaOS.Fat32.Insertion
import KeblaOS.Keyboard.RingBuffer
import KeblaOS.Keyboard.Interrupt
import KeblaOS.Scheduling.ProcessTable
import KeblaOS.Scheduling.ThreadLifecycle
import KeblaOS.Scheduling.ProcessLifecycle
import KeblaOS.Partition.Gpt
import KeblaOS.Partition.Checksum
import KeblaOS.Partition.PartitionManager
import KeblaOS.Partition.Placement
import KeblaOS.Partition.Rejection
import KeblaOS.Ext2.Format
import KeblaOS.Ext2.Mount
import KeblaOS.Vfs.Detect
import KeblaOS.Fat32.RoundTrip
import KeblaOS.Fat32.NameScan
import KeblaOS.Fat32.LongNames
import KeblaOS.Fat32.SlotEffects
import KeblaOS.Fat32.Unlinking
import KeblaOS.Fat32.Enumeration
import KeblaOS.Fat32.Resize
import KeblaOS.Iso9660.Directory
import KeblaOS.Iso9660.Paths
import KeblaOS.Vfs.Reading
import KeblaOS.Lib.PagedMemory
import KeblaOS.Memory.Heap
import KeblaOS.Memory.HeapRun
import KeblaOS.Lib.RadixTree
import KeblaOS.Memory.PageTree
import KeblaOS.Memory.GetPageRun
import KeblaOS.Memory.UserIsolation
import KeblaOS.Memory.Walk
import KeblaOS.Memory.KernelHeap
import KeblaOS.Memory.MapRange
import KeblaOS.Fat32.ChainWalks
import KeblaOS.Fat32.ChainCalls
import KeblaOS.Fat32.SlotRuns
import KeblaOS.Fat32.FullVolume
import KeblaOS.Fat32.LongNameBuffer
import KeblaOS.Fat32.OpenFiles
import KeblaOS.Fat32.SharedVolume
import KeblaOS.Fat32.Patterns
import KeblaOS.Fat32.EntryNames
import KeblaOS.Fat32.Streaming
import KeblaOS.Fat32.Printing
import KeblaOS.Ext2.FileReading
import KeblaOS.Ext2.Bitmaps
import KeblaOS.Lib.RecordWalk
import KeblaOS.Vsfs.Format
import KeblaOS.Ext2.Directory
import KeblaOS.Iso9660.RecordBounds
import KeblaOS.Ext2.DirectoryRecords
import KeblaOS.Ext2.CreateDir
import KeblaOS.Memory.BumpRun
import KeblaOS.Memory.FrameSet
import KeblaOS.Memory.HeapGrants
import KeblaOS.Memory.Lookup
import KeblaOS.Memory.HeapSizes
import KeblaOS.Scheduling.ThreadStacks
import KeblaOS.Ahci.Command
import KeblaOS.Ahci.Completion
import KeblaOS.Lib.Tiling
import KeblaOS.Ahci.ScatterList
import KeblaOS.Ahci.Rebase
import KeblaOS.Ahci.DiskBounds
import KeblaOS.Syscall.CopyFromUser
import KeblaOS.Syscall.KeyboardLine
import KeblaOS.Syscall.KeyboardRead
import KeblaOS.Lib.FormatItems
import KeblaOS.Stdio.Printf
import KeblaOS.Stdio.BoundedPrinting
import KeblaOS.Lib.Scanner
import KeblaOS.Time.Calendar
import KeblaOS.Stdio.FormatReads
import KeblaOS.Lib.Moves
import KeblaOS.Memory.Memmove
import KeblaOS.Memory.Memcpy
import KeblaOS.Lib.Exchange
import KeblaOS.Lib.DecimalText
import KeblaOS.Strings.Decimal
import KeblaOS.Fat32.FatTables
import KeblaOS.Acpi.Tables
import KeblaOS.Lib.GridLine
import KeblaOS.Video.Framebuffer
import KeblaOS.Video.Line
import KeblaOS.Mouse.Cursor
import KeblaOS.Video.Terminal
import KeblaOS.Stdlib.Sorting
import KeblaOS.Lib.XorLinear
import KeblaOS.Lib.ShiftRegister
