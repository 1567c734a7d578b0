import Nettik.Lib.ByteMem
import Nettik.Lib.Loops
import Nettik.Lib.Links
import Nettik.Lib.Channels
import Nettik.Lib.Wire
import Nettik.Lib.Replay
import Nettik.Lib.Simulation
import Nettik.Snapshot.Frame
import Nettik.Snapshot.Packet
import Nettik.Snapshot.RoundTrip
import Nettik.Snapshot.Bounds
import Nettik.Snapshot.Residue
import Nettik.World.Var
import Nettik.World.List
import Nettik.World.Object
import Nettik.World.System
import Nettik.World.Authorise
import Nettik.World.Server
import Nettik.World.Tick
import Nettik.World.Passes
import Nettik.World.Order
import Nettik.World.Recv
import Nettik.World.Framing
import Nettik.World.ListOps
import Nettik.World.Events
import Nettik.World.Rights
import Nettik.World.Failures
import Nettik.World.Malformed
import Nettik.World.Client
import Nettik.World.Mirror
import Nettik.World.Join
import Nettik.World.Realm
import Nettik.World.Realms
import Nettik.World.Managers
import Nettik.World.Updates
import Nettik.Sync.Exchange
import Nettik.Sync.Agree
import Nettik.Sync.Relay
import Nettik.Sync.Audience
import Nettik.Sync.Lists
import Nettik.Sync.Flush
import Nettik.Sync.Newest
import Nettik.Sync.Numbers
import Nettik.Sync.Kinds
import Nettik.Sync.Buffered
import Nettik.Sync.Connect
import Nettik.World.Outline
import Nettik.Sync.Stale
import Nettik.Sync.Session
import Nettik.Sync.Projection
import Nettik.Sync.Settle
import Nettik.Entity.Roll
import Nettik.Entity.Registry
import Nettik.Entity.Packets
import Nettik.Entity.Sends
import Nettik.Entity.Grant
import Nettik.Entity.Sets
import Nettik.Entity.InTouch
import Nettik.Entity.World
import Nettik.Entity.Limits
import Nettik.Lib.Feeds
import Nettik.Sync.Unowned
import Nettik.World.Lifecycle
import Nettik.Entity.Teardown
import Nettik.Entity.Ids
import Nettik.Sync.Traffic
import Nettik.Sync.Motion
import Nettik.World.Coded
import Nettik.World.Messages
import Nettik.World.Deltas
import Nettik.Sync.ListSession
import Nettik.Sync.ListSettle
