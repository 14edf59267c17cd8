import Glopen.Nacl.DyncodeRuns
import Glopen.Ncval.StubRuns
import Glopen.Arm.Loads
import Glopen.Ncval64.BaseRegister
import Glopen.Nacl.MapUpdates
import Glopen.Nacl.FreeSpace
import Glopen.Nacl.DynArray
import Glopen.Nacl.MainStackImage
import Glopen.Nacl.TextPages
import Glopen.Container.HashTblRuns
import Glopen.Srpc.Lengths
import Glopen.Srpc.ServiceTrip
import Glopen.Spdy.FrameBuffer
import Glopen.Spdy.SettingsTrip
import Glopen.Spdy.SessionStreams
import Glopen.Ftp.ControlRuns
import Glopen.Http.BodyRuns
import Glopen.Socket.PoolRuns
import Glopen.Cache.EvictionTrim
import Glopen.Cache.RankingsSequences
import Glopen.Base.PickleRoundTrip
import Glopen.Net.RegistryWalk
import Glopen.Net.TransportSecurityDates
import Glopen.Net.CookieExact
import Glopen.Net.CookieLimits
import Glopen.Http.PartialRuns
import Glopen.Http.HttpCacheDooms
import Glopen.WebSockets.MessageTrip
import Glopen.Cache.EntryAccounts
import Glopen.Cache.MemRange
import Glopen.Srpc.ArgsCleanup
import Glopen.Cache.SparseRange
import Glopen.Cache.InvalidEntries
import Glopen.Net.Escape
import Glopen.Net.TransportSecurityHeader
import Glopen.Http.HeaderUpdates
import Glopen.Arm.FallthroughRuns
import Glopen.Base.MatchPattern
import Glopen.Base.Values
import Glopen.Cache.Bitmap
import Glopen.Ftp.VmsPaths
import Glopen.Http.Freshness
import Glopen.Http.HttpAuthCache
import Glopen.Http.QuotedValues
import Glopen.Net.GzipHeader
import Glopen.Srpc.WriteRuns
