import SoftPC.App.Config
import SoftPC.Ccpu.BitString
import SoftPC.Ccpu.Divide
import SoftPC.Ccpu.External
import SoftPC.Ccpu.Limits
import SoftPC.Ccpu.Privilege
import SoftPC.Ccpu.Rotate
import SoftPC.Ccpu.StringRestart
import SoftPC.Comms.ComLine
import SoftPC.Comms.Lpt
import SoftPC.Compat.CcpuRestore
import SoftPC.Compat.MediaDigest
import SoftPC.Compat.MediaRestore
import SoftPC.Compat.SoundEvents
import SoftPC.Compat.Speaker
import SoftPC.Disks.FdiskSnapshot
import SoftPC.Disks.FdiskWrite
import SoftPC.Disks.FloppyExact
import SoftPC.Disks.FloppyMount
import SoftPC.Keymouse.ShiftState
import SoftPC.KvmBase.Character
import SoftPC.KvmBase.HotkeyStream
import SoftPC.KvmBase.Mailbox
import SoftPC.KvmWindow.Dirty
import SoftPC.KvmWindow.Render
import SoftPC.Lib.ConsoleBroker
import SoftPC.Lib.Input
import SoftPC.Lib.PcmStream
import SoftPC.Machine.Frames
import SoftPC.Machine.Lease
import SoftPC.Machine.Ledger
import SoftPC.Machine.SnapshotImage
import SoftPC.Session.InStep
import SoftPC.Session.WriteText
import SoftPC.System.CmosEvents
import SoftPC.System.IcaDelivery
import SoftPC.System.QuickTime
import SoftPC.System.TimerBacklog
import SoftPC.System.TimerClock
import SoftPC.System.TimerProtocol
import SoftPC.System.TimerSafety
import SoftPC.Video.CgaBios
import SoftPC.Video.EgaBios
import SoftPC.Video.V7Latches
import SoftPC.Video.VgaSave
import SoftPC.X86Debug.Lists
import SoftPC.X86Debug.LoadWrite
import SoftPC.X86Debug.Runs
