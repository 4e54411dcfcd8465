import Armsx3.Lv2.SemaphoreCount
import Armsx3.Lv2.EventQueueOrder
import Armsx3.Lv2.RwlockSafety
import Armsx3.Lv2.EventFlagQueue
import Armsx3.Lv2.MutexSafety
import Armsx3.Lv2.LwmutexSafety
import Armsx3.Net.P2psStreamSafety
import Armsx3.Net.TcpTimeoutSafety
import Armsx3.Lv2.MemoryAccounting
import Armsx3.Rsx.FragmentLinks
import Armsx3.Cell.SyncQueueSafety
import Armsx3.Cell.LfQueueCompletions
import Armsx3.Cell.DmuxPackSafety
import Armsx3.Rsx.DataHeapSafety
import Armsx3.Rsx.DrawClauseExecution
import Armsx3.Rsx.TransformUploadSafety
import Armsx3.Cell.MfcQueueOrder
import Armsx3.Lv2.IdManagerSafety
import Armsx3.Lv2.SchedulerOrder
import Armsx3.Cell.SpuChannelSafety
import Armsx3.Cell.SpuMailboxSafety
import Armsx3.Rsx.FifoControlSafety
import Armsx3.Util.SharedMutexSafety
import Armsx3.Memory.PageTable
import Armsx3.Util.LfQueueSafety
import Armsx3.Vfs.Mounts
import Armsx3.Util.AddressRange
import Armsx3.Memory.ReadString
import Armsx3.Memory.Reservation
import Armsx3.Memory.WriterLock
import Armsx3.Memory.MemoryBytes
import Armsx3.Rsx.FragmentAssembler
import Armsx3.Cell.SyncMutex
import Armsx3.Util.CondVariable
import Armsx3.Loader.Psf
import Armsx3.Cell.Rtc
import Armsx3.Cell.SpuSignal
import Armsx3.Cell.PpuAdd
import Armsx3.Cell.SpuFailedBlocks
import Armsx3.Cell.SpuInsert
import Armsx3.Cell.SpuQuadword
import Armsx3.Net.TcpChecksum
import Armsx3.Cell.SpuOutbound
