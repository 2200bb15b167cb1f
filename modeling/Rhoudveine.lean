import Rhoudveine.Mm.Placement
import Rhoudveine.Mm.TableSafety
import Rhoudveine.Mm.Mmio
import Rhoudveine.Mm.InitialFrames
import Rhoudveine.Drivers.XhciPools
import Rhoudveine.Drivers.XhciCompletions
import Rhoudveine.Drivers.XhciReports
import Rhoudveine.Drivers.XhciControl
import Rhoudveine.Drivers.PciDb
import Rhoudveine.Drivers.Vray
import Rhoudveine.Core.Startup
import Rhoudveine.Drivers.Madt
import Rhoudveine.Drivers.Shutdown
import Rhoudveine.Drivers.UsbHid
import Rhoudveine.Drivers.Ps2
import Rhoudveine.Userlib.Malloc
import Rhoudveine.Tools.UsbIds
import Rhoudveine.Tools.Menuconfig
import Rhoudveine.Elf.Safety
import Rhoudveine.Elf.Disclosure
import Rhoudveine.Elf.Failure
import Rhoudveine.Tar.Install
import Rhoudveine.X86.Isr
import Rhoudveine.X86.Syscall
import Rhoudveine.X86.Exceptions
import Rhoudveine.Drivers.AhciPolling
import Rhoudveine.Drivers.AhciMemory
import Rhoudveine.Drivers.AhciCommands
import Rhoudveine.Fs.Capacity
import Rhoudveine.Fs.Refinement
import Rhoudveine.Fs.Paths
import Rhoudveine.Fs.Crossings
import Rhoudveine.Fs.RamfsFiles
import Rhoudveine.Fs.Recycled
import Rhoudveine.Tar.Duplicates
import Rhoudveine.Core.Blk
import Rhoudveine.Core.Boot
import Rhoudveine.Core.Cwd
import Rhoudveine.Core.Console
import Rhoudveine.Core.Backspace
import Rhoudveine.Core.Timer
import Rhoudveine.Core.Kprintf
import Rhoudveine.Fat32.File
import Rhoudveine.Fat32.Create
import Rhoudveine.Fat32.Handles
import Rhoudveine.Fat32.Overrun
import Rhoudveine.Fat32.Interleaving
import Rhoudveine.Fat32.LastCluster
import Rhoudveine.Fat32.ParentLinks
import Rhoudveine.Fat32.GivenBack
import Rhoudveine.Fat32.Images
import Rhoudveine.Fat32.ShortNames
import Rhoudveine.Fat32.LongNames
import Rhoudveine.Fat32.Lookup
import Rhoudveine.Fat32.Additions
import Rhoudveine.Fs.Components
import Rhoudveine.Fs.Opening
import Rhoudveine.Fs.DirectoryCursor
import Rhoudveine.Shell.PathLimit
import Rhoudveine.Shell.Loop
