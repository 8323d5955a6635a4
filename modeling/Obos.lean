import Obos.Mutex
import Obos.PageFault
import Obos.PageTablesRefine
import Obos.OutOfMemory
import Obos.ReadyQueues
import Obos.Semaphore
import Obos.WaitLinks
import Obos.FilePermissions
import Obos.Partition
import Obos.FileFlush
import Obos.MountLifetime
import Obos.Fat.CrossLinks
import Obos.Timer
import Obos.Dpc
import Obos.Event
import Obos.IrqRegistry
import Obos.SwapCapacity
import Obos.Fat.Tree
import Obos.DiskSwapRecovery
import Obos.SerialPort
import Obos.KernelString
import Obos.Ahci.Slots
import Obos.AsyncIo
import Obos.Vmm.Protection
import Obos.PmmAllocation
import Obos.GapSearch
import Obos.PmmZones
import Obos.Crc32
import Obos.Ahci.Completion
import Obos.DiskSwapTransfer
