import Datorium.Document.CanonicalForm
import Datorium.Agents.Encodings
import Datorium.SchemaPatch.Numbers
import Datorium.Agents.Progress
import Datorium.Engine.Colocation
import Datorium.Engine.Visibility
import Datorium.Engine.Interleaving
import Datorium.Replication.InOrder
import Datorium.Replication.CheckIn
import Datorium.Replication.Migration
import Datorium.Replication.Delivery
import Datorium.Replication.Starvation
import Datorium.Attachments.Ranges
import Datorium.Attachments.Upload
import Datorium.Attachments.ManifestRuns
import Datorium.Replication.Isolation
import Datorium.Attachments.Deliveries
import Datorium.Attachments.Download
import Datorium.Attachments.Replica
import Datorium.Replication.Lengths
import Datorium.Search.Races
import Datorium.Search.Repeats
import Datorium.Caches.Converge
import Datorium.Caches.Pull
import Datorium.Search.FieldPaths
import Datorium.Search.Expansion
