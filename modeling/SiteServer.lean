import SiteServer.Http.Request
import SiteServer.Loopback.Exchange
import SiteServer.Loopback.Traffic
import SiteServer.Main
import SiteServer.Pool.Counter
import SiteServer.Pool.Trial
import SiteServer.Proofs.Connection.Chunks
import SiteServer.Proofs.Connection.Stages
import SiteServer.Proofs.Connection.Unreadable
import SiteServer.Proofs.Http.CloseFlag
import SiteServer.Proofs.Http.HostPort
import SiteServer.Proofs.Http.OnePass
import SiteServer.Proofs.Http.RequestLine
import SiteServer.Proofs.Paths.Bytes
import SiteServer.Proofs.Pool.Determinism
import SiteServer.Proofs.Pool.Shutdown
import SiteServer.Proofs.Pool.Waiting
import SiteServer.Proofs.Server.Breakdown
import SiteServer.Proofs.Server.Tokens
import SiteServer.Proofs.Site.Confinement
import SiteServer.Proofs.Site.Extensions
import SiteServer.Proofs.Site.ListingLinks
import SiteServer.Proofs.Site.Respellings
import SiteServer.Proofs.Site.Sizes
import SiteServer.Server.CommandLine
import SiteServer.Server.Config
import SiteServer.Site.Sample
import SiteServer.Slot.Table
import SiteServer.Storage.Build
