import Thuos.Lib.Machine
import Thuos.Lib.Cyclic
import Thuos.Lib.Table
import Thuos.Lib.Bits
import Thuos.Lib.ByteMem
import Thuos.Lib.CStr
import Thuos.Lib.FirstFit
import Thuos.Sched.Core
import Thuos.Sched.Proofs.Running
import Thuos.Sched.Proofs.Fair
import Thuos.Sched.Proofs.Exit
import Thuos.Fs.Core
import Thuos.Fs.Proofs.Map
import Thuos.Mm.FrameBitmap
import Thuos.Mm.Pmm
import Thuos.Mm.Proofs.Reserve
import Thuos.Mm.Proofs.ScanMap
import Thuos.Mm.Proofs.PmmInit
import Thuos.Mm.Proofs.PmmRun
import Thuos.Mm.KheapCore
import Thuos.Mm.Proofs.HeapRefine
import Thuos.Mm.Proofs.HeapTiling
import Thuos.Mm.Proofs.HeapHistory
import Thuos.Mm.Kheap
import Thuos.Mm.Proofs.HeapPayload
import Thuos.Mm.Proofs.KheapSizes
import Thuos.Mm.VmmCore
import Thuos.Lib.TwoLevel
import Thuos.Mm.Proofs.IdentityMap
import Thuos.Mm.Vmm
import Thuos.Mm.Proofs.PageSlots
import Thuos.Mm.Proofs.PromisedMap
import Thuos.Mm.Proofs.WindowFlags
import Thuos.Lib.CycleRing
import Thuos.Usb.Proofs.RingFifo
import Thuos.Lib.Coroutine
import Thuos.Usb.Controller
import Thuos.Usb.Hid
import Thuos.Usb.Xhci
import Thuos.Usb.Proofs.Events
import Thuos.Usb.Proofs.Phases
import Thuos.Usb.Proofs.Sound
import Thuos.Usb.Proofs.ControlXfer
import Thuos.Usb.Proofs.DeviceSlots
import Thuos.Usb.Proofs.HidReports
import Thuos.Ai.Core
import Thuos.Ai.Proofs.AuditRing
import Thuos.Ai.Proofs.Tasks
import Thuos.Ai.Ai
import Thuos.Ai.Proofs.Bridge
import Thuos.Lib.Loop
import Thuos.Lib.Terminal
import Thuos.Video.Vga
import Thuos.Video.Proofs.VgaConsole
import Thuos.Mm.Proofs.LfbWindow
import Thuos.Video.Lfb
import Thuos.Gui.Gconsole
import Thuos.Video.Proofs.LfbMapped
import Thuos.Gui.Proofs.OnScreen
import Thuos.Fs.Kfs
import Thuos.Fs.Proofs.KfsRoom
import Thuos.Gui.Notes
import Thuos.Gui.Proofs.Autosave
import Thuos.Lib.I386
import Thuos.Sched.Context
import Thuos.Sched.Proofs.Switch
import Thuos.Lib.Fifo
import Thuos.Sched.Coop
import Thuos.Sched.Proofs.ReadyQueue
import Thuos.Sched.Proofs.CoopRun
import Thuos.Usb.EventPoll
import Thuos.Usb.Proofs.EventPoll
import Thuos.Lib.Walk
import Thuos.Lib.FreeRuns
import Thuos.Fs.Proofs.AnyWrite
import Thuos.Mm.Proofs.FrameSet
import Thuos.Mm.Proofs.AllocRuns
import Thuos.Mm.Proofs.MapUpdate
import Thuos.Mm.Proofs.DoubleFree
import Thuos.Mm.Proofs.CheckSound
import Thuos.Mm.Proofs.MapWalk
import Thuos.Mm.Proofs.Protected
import Thuos.Video.Proofs.Pixels
import Thuos.Gui.Drawn
import Thuos.Gui.Proofs.TwoConsoles
import Thuos.Gui.Proofs.Painted
import Thuos.Lib.RingBuffer
import Thuos.Drivers.Keyboard
import Thuos.Drivers.Proofs.KeyFifo
import Thuos.Gui.Calc
import Thuos.Gui.Proofs.CalcFaults
import Thuos.Lib.Numeral
import Thuos.Core.Kprintf
import Thuos.Shell.Parse
import Thuos.Shell.Proofs.Parsers
import Thuos.Shell.Proofs.ExactNumbers
import Thuos.Shell.Proofs.ReadBack
import Thuos.Shell.Shell
import Thuos.Shell.Proofs.Replay
import Thuos.Usb.Proofs.Descriptors
import Thuos.Usb.Proofs.WalkReads
import Thuos.Usb.Proofs.BootInterface
import Thuos.Usb.Proofs.KeyPress
import Thuos.Shell.Proofs.WriteCat
import Thuos.Lib.ScreenLine
import Thuos.Gui.Proofs.Cells
import Thuos.Core.Proofs.Display
import Thuos.Shell.Proofs.LineShown
import Thuos.Core.MemCopy
import Thuos.Core.Proofs.MemCopy
import Thuos.Gui.Proofs.LeftToRight
import Thuos.Video.Proofs.FillPixels
import Thuos.Video.Proofs.Clear
import Thuos.Lib.DigitalLine
import Thuos.Video.Shapes
import Thuos.Video.Proofs.Line
import Thuos.Video.Proofs.Within
import Thuos.Video.Proofs.Shapes
import Thuos.Gui.Paint
import Thuos.Gui.Proofs.Strokes
import Thuos.Lib.Rings
import Thuos.Arch.Stubs
import Thuos.Arch.Proofs.Frame
import Thuos.Arch.Pic
import Thuos.Arch.Irq
import Thuos.Arch.Proofs.Invisible
import Thuos.Arch.Proofs.Irq
import Thuos.Arch.Syscall
import Thuos.Arch.Proofs.Syscall
import Thuos.Arch.Proofs.Usermode
import Thuos.Arch.Tables
import Thuos.Arch.Proofs.Tables
import Thuos.Drivers.Mouse
import Thuos.Drivers.Proofs.Pointer
import Thuos.Video.Blit
import Thuos.Video.Proofs.Blit
import Thuos.Video.Proofs.Repaint
import Thuos.Video.Proofs.Gradient
import Thuos.Gui.Desktop
import Thuos.Gui.DesktopRun
import Thuos.Gui.Proofs.Cursor
import Thuos.Gui.Proofs.Events
import Thuos.Gui.Proofs.Redraw
import Thuos.Core.Proofs.Formats
import Thuos.Sched.Kdemo
import Thuos.Sched.Proofs.Slices
import Thuos.Lib.Wrap
import Thuos.Gui.TextBlock
import Thuos.Gui.Proofs.Wrapped
import Thuos.Gui.Files
import Thuos.Gui.Proofs.FileRows
import Thuos.Core.Strings
import Thuos.Core.Proofs.Strings
import Thuos.Video.Proofs.Regions
import Thuos.Gui.CalcPanel
import Thuos.Gui.Proofs.CalcShown
