import Usbd.Objstore.Transfers
import Usbd.Objstore.Encodings
import Usbd.Objstore.DroppedCopies
import Usbd.Objstore.Linearizable
import Usbd.Objstore.FailedEviction
import Usbd.Objstore.Eviction
import Usbd.Objstore.Listing
import Usbd.Objstore.CacheReuse
import Usbd.Nbd.RequestStream
import Usbd.Dedup.MapBounds
import Usbd.Dedup.Exactness
import Usbd.Dedup.Pending
import Usbd.Dedup.Shutdown
import Usbd.Objstore.FlushBuffers
import Usbd.Objstore.FailedDownload
import Usbd.Objstore.Uploads
import Usbd.Devices.Streaming
import Usbd.Runtime.ZeroLoops
import Usbd.Devices.FileDisk
import Usbd.Objstore.SharedDisk
import Usbd.Nbd.Teardown
