import PendantClient.Theorems.Reassembly
import PendantClient.Theorems.Sending
import PendantClient.Theorems.Requests
import PendantClient.Theorems.PageLoss
import PendantClient.Theorems.Persist
import PendantClient.Theorems.Batch
import PendantClient.Theorems.Splitter
import PendantClient.Theorems.Segments
import PendantClient.Theorems.Ogg
import PendantClient.Theorems.Truncated
import PendantClient.Theorems.Lifecycle
import PendantClient.Theorems.Pending
import PendantClient.Theorems.Live
import PendantClient.Theorems.Sidecars
import PendantClient.Theorems.Crc
import PendantClient.Theorems.AnyFragments
import PendantClient.Theorems.Readers
import PendantClient.Theorems.LinkLimit
import PendantClient.Theorems.Atomic
import PendantClient.Theorems.Metadata
import PendantClient.Theorems.Duration
import PendantClient.Theorems.Rejected
import PendantClient.Theorems.Draining
import PendantClient.Theorems.Queries
import PendantClient.Theorems.Boundaries
import PendantClient.Theorems.Inspect
import PendantClient.Theorems.Lossless
import PendantClient.Theorems.IndexReuse
import PendantClient.Theorems.Delivery
import PendantClient.Theorems.KeySets
import PendantClient.Theorems.Paths
import PendantClient.Theorems.Redecode
import PendantClient.Theorems.EndToEnd
import PendantClient.Theorems.Uploads
import PendantClient.Theorems.Custody
import PendantClient.Theorems.SyncRun
import PendantClient.Theorems.Joined
import PendantClient.Theorems.Keyless
import PendantClient.Theorems.Ending
