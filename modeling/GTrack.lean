import GTrack.Lib.Lts
import GTrack.Lib.CString
import GTrack.Lib.Alternating
import GTrack.Lib.Signal
import GTrack.Lib.Attempts
import GTrack.Lib.DeltaList
import GTrack.Lib.Chains
import GTrack.Lib.Runs
import GTrack.Lib.Wp
import GTrack.ChibiOS.Kernel
import GTrack.ChibiOS.Mmc
import GTrack.ChibiOS.Mailbox
import GTrack.ChibiOS.VirtualTimers
import GTrack.ChibiOS.Shell
import GTrack.ChibiOS.Heap
import GTrack.FatFs.Volume
import GTrack.FatFs.Fat
import GTrack.FatFs.Chain
import GTrack.FatFs.Frame
import GTrack.FatFs.File
import GTrack.FatFs.Bytes
import GTrack.FatFs.Append
import GTrack.At.Util
import GTrack.At.Cgnsinf
import GTrack.At.Frame
import GTrack.Sim8xx.Status
import GTrack.Sim8xx.Grammar
import GTrack.At.Response
import GTrack.Sim8xx.Driver
import GTrack.Sim8xx.Core
import GTrack.Sim8xx.Refinement
import GTrack.Sim8xx.Tokens
import GTrack.Sim8xx.HandOver
import GTrack.Sim8xx.SerialInput
import GTrack.Sim8xx.Framing
import GTrack.Sim8xx.RxBuffer
import GTrack.Sim8xx.Modem
import GTrack.Gps.Reader
import GTrack.Gps.Date
import GTrack.Peripheral.Sdcard
import GTrack.Peripheral.DebugShell
import GTrack.Peripheral.BoardMonitor
import GTrack.Peripheral.Debounce
import GTrack.Peripheral.Tree
import GTrack.Peripheral.Manager
import GTrack.System.SystemThread
import GTrack.System.Ignition
import GTrack.System.FileSystem
