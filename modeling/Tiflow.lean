import Tiflow.P2p.Basic
import Tiflow.P2p.Server
import Tiflow.P2p.Handler
import Tiflow.P2p.System
import Tiflow.P2p.Frame
import Tiflow.P2p.PeerRegistry
import Tiflow.P2p.Registration
import Tiflow.P2p.Pending
import Tiflow.P2p.Delivery
import Tiflow.P2p.Topics
import Tiflow.P2p.LocalChannel
import Tiflow.P2p.Callers
import Tiflow.P2p.Handlers
import Tiflow.P2p.Acks
import Tiflow.P2p.RoundTrip
import Tiflow.P2p.Orphans
import Tiflow.P2p.Unregister
import Tiflow.P2p.Tick
import Tiflow.P2p.AckOrder
import Tiflow.P2p.Reports
import Tiflow.Puller.Basic
import Tiflow.Puller.JobPuller
import Tiflow.Puller.Ordering
import Tiflow.Puller.DDLPuller
import Tiflow.Puller.Watermark
import Tiflow.Puller.Simulation
import Tiflow.Puller.Filter
import Tiflow.Puller.JobTableMeta
import Tiflow.Sink.AsyncDDL
