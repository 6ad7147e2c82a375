import StrawOS.Lib.Buf
import StrawOS.Lib.Chain
import StrawOS.Lib.Decoder
import StrawOS.Lib.Endian
import StrawOS.Lib.Forest
import StrawOS.Lib.Machine
import StrawOS.Lib.SeqNum
import StrawOS.Inet.Socket
import StrawOS.Inet.Receive
import StrawOS.Inet.Table
import StrawOS.Inet.ControlBlock
import StrawOS.Inet.ControlBlockRun
import StrawOS.Inet.Acknowledge
import StrawOS.Inet.Backlog
import StrawOS.Inet.Listener
import StrawOS.Inet.Tuples
import StrawOS.Net.Frame
import StrawOS.Net.Slices
import StrawOS.Stream.Receiver
import StrawOS.Stream.Sender
import StrawOS.Stream.Writer
import StrawOS.Stream.Arrival
import StrawOS.Stream.Safety
import StrawOS.Stream.LateWriter
import StrawOS.Vfs.Path
import StrawOS.Vfs.Resolve
import StrawOS.Vfs.Node
import StrawOS.Vfs.RamfsWrite
import StrawOS.Vfs.Ops
import StrawOS.Vfs.Invariant
import StrawOS.Vfs.Lookup
import StrawOS.Vfs.Create
import StrawOS.Vfs.Remove
import StrawOS.Vfs.Move
import StrawOS.Vfs.Lifetime
import StrawOS.Vfs.Walk
import StrawOS.Vfs.Effects
import StrawOS.Vfs.Agree
import StrawOS.Fat.Block
import StrawOS.Fat.Table
import StrawOS.Disk.Device
import StrawOS.Disk.Scan
import StrawOS.Disk.Confine
import StrawOS.Fat.Geometry
import StrawOS.Fat.Format
import StrawOS.Fat.Entries
import StrawOS.Fat.Faults
import StrawOS.Fat.Chain
import StrawOS.Fat.Extend
import StrawOS.Fat.Io
import StrawOS.Fat.Bytes
import StrawOS.Fat.Slot
import StrawOS.Fat.Directory
import StrawOS.Fat.Load
import StrawOS.Fat.Remove
import StrawOS.Fat.Grow
import StrawOS.Fat.Room
import StrawOS.Fat.LongName
import StrawOS.Fat.Added
import StrawOS.Fat.Termination
import StrawOS.Disk.Mounts
import StrawOS.Disk.Exclusive
import StrawOS.Disk.Transfer
import StrawOS.Disk.Timeout
import StrawOS.Sock.Model
import StrawOS.Sock.Graph
import StrawOS.Sock.Calls
import StrawOS.Sock.Rings
import StrawOS.Sock.Pair
import StrawOS.Sock.PairRun
import StrawOS.Lib.Bitmap
import StrawOS.Mem.Pages
import StrawOS.Mem.Blocks
import StrawOS.Mem.Calls
import StrawOS.Mem.Init
import StrawOS.Mem.Contract
import StrawOS.Lib.SwapTable
import StrawOS.Mem.UserPages
import StrawOS.Mem.UserAccounts
import StrawOS.Mem.Holdings
import StrawOS.Lib.Ring
import StrawOS.Sched.Model
import StrawOS.Sched.RoundRobin
import StrawOS.Sched.Invariant
import StrawOS.Sched.Runs
import StrawOS.Desc.Model
import StrawOS.Desc.Redirect
import StrawOS.Program.Model
import StrawOS.Program.Invariant
import StrawOS.Program.Kill
import StrawOS.Libc.AbsPath
import StrawOS.Libc.Normalize
import StrawOS.Libc.Stdio
import StrawOS.Libc.Heap
import StrawOS.Libc.HeapCalls
import StrawOS.Libc.HeapContract
import StrawOS.Audio.Model
import StrawOS.Audio.Queue
import StrawOS.Voice.Dave
import StrawOS.Voice.Nonce
import StrawOS.Voice.Decrypt
import StrawOS.Voice.Passthrough
import StrawOS.Voice.Video
import StrawOS.Voice.VideoTrip
import StrawOS.Voice.VideoFrames
import StrawOS.Web.Frames
import StrawOS.Web.Messages
import StrawOS.Lib.PtrQueue
import StrawOS.Web.Requests
import StrawOS.Web.Queues
import StrawOS.Web.ExactlyOnce
import StrawOS.Desktop.WindowTable
import StrawOS.Desktop.Damage
import StrawOS.Usb.Xhci
import StrawOS.Usb.Matching
import StrawOS.Usb.Keyboard
import StrawOS.Lib.TreeIndex
import StrawOS.Lib.Logged
import StrawOS.Lib.Loop
import StrawOS.Mls.Wire
import StrawOS.Mls.Crypto
import StrawOS.Mls.Tree
import StrawOS.Mls.TreeShape
import StrawOS.Mls.TreeChange
import StrawOS.Mls.Group
import StrawOS.Mls.UpdateShape
import StrawOS.Mls.RoundTrip
import StrawOS.Mls.Session
import StrawOS.Mls.Lineage
import StrawOS.Mls.Bounds
import StrawOS.Mls.InputSafety
import StrawOS.StrawX.Framing
import StrawOS.StrawX.Buffers
import StrawOS.StrawX.Ownership
import StrawOS.StrawX.Configure
import StrawOS.Discord.Store
import StrawOS.Lib.Owned
import StrawOS.Discord.Integrity
import StrawOS.Discord.GuildStore
import StrawOS.Lib.AddrSpace
import StrawOS.Elf.Image
import StrawOS.Elf.Confine
import StrawOS.Elf.Tables
import StrawOS.Elf.Correct
import StrawOS.Disk.Gpt
import StrawOS.Disk.GptDisk
import StrawOS.Disk.GptAgree
import StrawOS.Lib.OnesComplement
import StrawOS.Lib.Decimal
import StrawOS.Lib.PhaseRing
import StrawOS.Lib.RecordRing
import StrawOS.Net.Checksum
import StrawOS.Net.Rtl8139
import StrawOS.Libc.Printf
import StrawOS.Inet.Address
import StrawOS.Disk.Nvme
import StrawOS.Disk.NvmePrp
import StrawOS.Usb.Rings
import StrawOS.Usb.EventRing
import StrawOS.Usb.Config
import StrawOS.Usb.HidLayout
import StrawOS.Usb.HidSearch
import StrawOS.Usb.HidReport
import StrawOS.Audio.Capture
import StrawOS.Audio.CaptureReads
import StrawOS.Libc.Output
import StrawOS.Libc.Qsort
import StrawOS.Lib.Calendar
import StrawOS.Libc.Time
import StrawOS.Libc.IntegerText
import StrawOS.Libc.Dns
import StrawOS.Mls.Rejected
import StrawOS.Mls.TreeLaws
import StrawOS.Fat.Cache
import StrawOS.Apps.Notes
import StrawOS.Voice.FrameTrip
import StrawOS.Voice.FrameBounds
import StrawOS.Voice.Replay
import StrawOS.Discord.UserTable
import StrawOS.Discord.Messages
import StrawOS.StrawX.Settings
