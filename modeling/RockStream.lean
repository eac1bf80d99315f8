import RockStream.Aggregate.Evict
import RockStream.MinMax.Law
import RockStream.TopK.Law
import RockStream.Window.Batch
import RockStream.Window.Functions
import RockStream.Window.Specification
import RockStream.Sql.GroupBy
import RockStream.Sql.Join
import RockStream.Join.Beside
import RockStream.Join.Nulls
import RockStream.TimeWindow.LateRoute
import RockStream.TimeWindow.SessionLaw
import RockStream.Gateway.SourceLaw
import RockStream.Recursion.Law
import RockStream.Gateway.ScatterRead
import RockStream.Gateway.RowKey
import RockStream.Gateway.Tsv
import RockStream.Gateway.Reachable
import RockStream.Gateway.Refresh
import RockStream.Gateway.Subscribe
import RockStream.GroupCommit.Law
import RockStream.Worker.Compact
import RockStream.Join.Views
import RockStream.Exchange.Request
import RockStream.Exchange.Fingerprint
import RockStream.Connector.SourceEpoch
import RockStream.Control.Raft
import RockStream.Control.Migration
import RockStream.Control.Rendezvous
import RockStream.Control.Takeover
import RockStream.Control.Frontier
