import MantisDns.Wire
import MantisDns.CompileVersions
import MantisDns.UpstreamSnapshot
import MantisDns.DdnsIsolation
import MantisDns.Router
import MantisDns.Forwarder
import MantisDns.LeaseExclusive
import MantisDns.LeasePerClient
import MantisDns.OfferAccepted
import MantisDns.GrantAdmissible
import MantisDns.RelayAllowList
import MantisDns.DdnsDelivery
import MantisDns.FeedSync
import MantisDns.AuditTrail
import MantisDns.SsrfGuard
import MantisDns.SiemPull
import MantisDns.Telemetry
import MantisDns.Analytics
import MantisDns.SoaSerial
import MantisDns.CnameExclusive
import MantisDns.LeaseTimers
import MantisDns.IcmpEcho
import MantisDns.CnameChains
import MantisDns.CacheTransparency
import MantisDns.Retention
import MantisDns.BlockTemplates
import MantisDns.Csrf
import MantisDns.AcceptedRecords
