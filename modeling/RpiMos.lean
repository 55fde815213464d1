import RpiMos.Lib.Run
import RpiMos.Lib.OnePlace
import RpiMos.Lib.Scan
import RpiMos.Lib.SlotCount
import RpiMos.Lib.Allocator
import RpiMos.Lib.RadixTable
import RpiMos.Lib.IntrusiveList
import RpiMos.Lib.Ring
import RpiMos.Lib.RoundRobin
import RpiMos.Lib.Prog
import RpiMos.Lib.ByteMem
import RpiMos.Lib.A64
import RpiMos.Lib.BlockTree
import RpiMos.Lib.NamedTree
import RpiMos.Mm.Mmu
import RpiMos.Mm.Pmap
import RpiMos.Mm.PageTable
import RpiMos.Mm.PageTableOps
import RpiMos.Mm.PageOps
import RpiMos.Mm.PageEdit
import RpiMos.Mm.PageFrame
import RpiMos.Mm.Boot
import RpiMos.Mm.PageMap
import RpiMos.Mm.PageSet
import RpiMos.Mm.PageWindow
import RpiMos.Mm.Translate
import RpiMos.Kernel.Env
import RpiMos.Kernel.Syscall
import RpiMos.Kernel.SchedLists
import RpiMos.Kernel.MemCalls
import RpiMos.Kernel.EnvSetup
import RpiMos.Kernel.EnvFree
import RpiMos.Kernel.EnvMemory
import RpiMos.Kernel.EnvIds
import RpiMos.Kernel.SchedOrder
import RpiMos.Kernel.SchedSelect
import RpiMos.Kernel.Ipc
import RpiMos.Kernel.IpcReport
import RpiMos.Kernel.AllocFail
import RpiMos.Kernel.EnvLinks
import RpiMos.Kernel.Calls
import RpiMos.Kernel.CallMemory
import RpiMos.Kernel.Isolation
import RpiMos.Kernel.Residue
import RpiMos.Kernel.TrapFrame
import RpiMos.User.Ipc
import RpiMos.Lib.Rpc
import RpiMos.Fs.Block
import RpiMos.Fs.File
import RpiMos.Fs.Steady
import RpiMos.Fs.Seen
import RpiMos.Fs.Mounted
import RpiMos.Fs.BlockMap
import RpiMos.Fs.ClearBlock
import RpiMos.Fs.Truncate
import RpiMos.Fs.Serv
import RpiMos.Fs.OpenTab
import RpiMos.Fs.FileIds
import RpiMos.User.Fsipc
import RpiMos.User.FsipcPath
import RpiMos.User.FsipcPages
import RpiMos.User.FsipcRun
import RpiMos.User.PageViews
import RpiMos.User.Pgfault
import RpiMos.User.Pipe
import RpiMos.User.PipeRefs
import RpiMos.User.Spawn
import RpiMos.User.SpawnFail
import RpiMos.User.SpawnFile
import RpiMos.User.SpawnStack
import RpiMos.Mm.PageCost
import RpiMos.Mm.UserBytes
import RpiMos.Kernel.LoadIcode
import RpiMos.Fs.BlockSet
import RpiMos.Fs.DirTree
import RpiMos.Fs.FileCreate
import RpiMos.Fs.BlockView
import RpiMos.Fs.FileTree
import RpiMos.Fs.FileSlots
import RpiMos.Fs.TreeEdits
import RpiMos.Fs.Flush
import RpiMos.Fs.TreeTruncate
import RpiMos.Fs.TreeLookup
import RpiMos.Fs.TreeRemove
import RpiMos.Fs.TreeCreate
import RpiMos.Fs.FileView
import RpiMos.Fs.ViewEdits
import RpiMos.Fs.FsOps
import RpiMos.Fs.FsRun
import RpiMos.Lib.IntBuf
import RpiMos.Print.Fwritef
import RpiMos.Print.Reference
import RpiMos.User.Client
import RpiMos.User.Dup
import RpiMos.User.FileRange
import RpiMos.User.Gettoken
import RpiMos.User.PipeEof
import RpiMos.User.ReadBuf
import RpiMos.User.Readline
import RpiMos.User.Runcmd
import RpiMos.User.UserBcopy
