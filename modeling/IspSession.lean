import IspSession.Library.Bytes
import IspSession.Library.Odometer
import IspSession.Library.OrderedMap
import IspSession.Library.Runs
import IspSession.Library.Ownership
import IspSession.Library.SearchTree
import IspSession.Library.Tokens
import IspSession.Library.Utf
import IspSession.Model.Automation
import IspSession.Model.CStream
import IspSession.Model.LocaleMap
import IspSession.Model.Codec
import IspSession.Model.VariantDictionary
import IspSession.Model.SessionStore
import IspSession.Model.Session
import IspSession.Model.SessionSystem
import IspSession.Model.Application
import IspSession.Model.ApplicationStore
import IspSession.Model.ApplicationSystem
import IspSession.Model.DotNet
import IspSession.Model.NetValue
import IspSession.Model.StreamManager
import IspSession.Model.ManagedStore
import IspSession.Model.MixedApplication
import IspSession.Model.ApplicationCache
import IspSession.Model.StateItemCollection
import IspSession.Model.PersistUtil
import IspSession.Model.ManagedRecords
import IspSession.Model.ManagedSession
import IspSession.Model.SessionModule
import IspSession.Analysis.ArrayWalk
import IspSession.Analysis.ValueFormat
import IspSession.Analysis.ValueReading
import IspSession.Analysis.DictionaryFormat
import IspSession.Analysis.DictionaryReading
import IspSession.Analysis.SessionCodecRoundTrip
import IspSession.Analysis.Lossless
import IspSession.Analysis.SessionCodecNoLoss
import IspSession.Analysis.VariableCalls
import IspSession.Analysis.Contents
import IspSession.Analysis.SessionRecords
import IspSession.Analysis.SessionLoading
import IspSession.Analysis.SessionSaving
import IspSession.Analysis.ReEntrance
import IspSession.Analysis.SessionRuns
import IspSession.Analysis.WritesPersisted
import IspSession.Analysis.SessionIds
import IspSession.Analysis.RequestFrames
import IspSession.Analysis.ConcurrentRequests
import IspSession.Analysis.FailedLoad
import IspSession.Analysis.FreshVisitors
import IspSession.Analysis.AbandonedSessions
import IspSession.Analysis.WriterProgress
import IspSession.Analysis.SettingsKept
import IspSession.Analysis.StateItems
import IspSession.Analysis.ObjectReading
import IspSession.Analysis.ApplicationCalls
import IspSession.Analysis.ApplicationFlags
import IspSession.Analysis.LocaleChanges
import IspSession.Analysis.RedisCommands
import IspSession.Analysis.TwoApplicationStores
import IspSession.Analysis.DirtyFlag
import IspSession.Analysis.SerializedFlags
import IspSession.Analysis.ApplicationRecords
import IspSession.Analysis.ApplicationSaving
import IspSession.Analysis.ApplicationLoading
import IspSession.Analysis.ApplicationRequests
import IspSession.Analysis.SaveThenLoad
import IspSession.Analysis.GhostCleanup
import IspSession.Analysis.SaveAmongCleanups
import IspSession.Analysis.NetArrays
import IspSession.Analysis.TypeNames
import IspSession.Analysis.ManagedReading
import IspSession.Analysis.ManagedFormat
import IspSession.Analysis.NetValueReading
import IspSession.Analysis.ManagedPayload
import IspSession.Analysis.LateActivation
import IspSession.Analysis.ManagedRoundTrip
import IspSession.Analysis.ManagedRecords
import IspSession.Analysis.LazyLoad
import IspSession.Analysis.SessionWork
import IspSession.Analysis.CommitLaw
import IspSession.Analysis.LiquidIds
import IspSession.Analysis.LateAccess
import IspSession.Analysis.UrlIds
import IspSession.Analysis.ModuleKeys
import IspSession.Analysis.ModuleItems
import IspSession.Analysis.ModuleProtocol
import IspSession.Analysis.ManagedSettings
import IspSession.Model.NativeRecords
import IspSession.Analysis.SessionKeys
import IspSession.Analysis.IdTexts
import IspSession.Analysis.RecordEnvelopes
import IspSession.Analysis.Compression
import IspSession.Analysis.NestedObjects
import IspSession.Analysis.ObjectCycles
import IspSession.Analysis.TwoCodecs
import IspSession.Analysis.PoolConnections
import IspSession.Analysis.PoolTimer
import IspSession.Analysis.StreamRefinement
import IspSession.Analysis.StreamCopy
import IspSession.Model.ComBstr
import IspSession.Analysis.TextReplacement
import IspSession.Analysis.FailedCalls
import IspSession.Library.Fields
import IspSession.Model.SessionUrl
import IspSession.Analysis.UrlParameters
import IspSession.Analysis.UrlOutcomes
import IspSession.Analysis.UrlRewriting
import IspSession.Analysis.UrlDefects
import IspSession.Library.Decimal
import IspSession.Model.ConnectionString
import IspSession.Analysis.ConnectionParts
import IspSession.Analysis.ConnectionStrings
import IspSession.Analysis.TwoConnectionReadings
import IspSession.Analysis.SessionTimeouts
import IspSession.Model.UrlCookie
import IspSession.Analysis.PercentServer
import IspSession.Analysis.UrlCookieRedirects
import IspSession.Analysis.SessionCookies
import IspSession.Analysis.ConfigurationRuns
import IspSession.Analysis.NetObjectFraming
import IspSession.Analysis.DecoderBounds
import IspSession.Analysis.BadVariables
import IspSession.Analysis.PutThenGet
import IspSession.Analysis.SplitPartition
import IspSession.Analysis.IndexOdometer
import IspSession.Model.KeyEnumeration
import IspSession.Analysis.KeyEnumeration
import IspSession.Model.HashedIds
import IspSession.Analysis.HashedIds
import IspSession.Analysis.Truncation
import IspSession.Analysis.ValueFrames
import IspSession.Analysis.ReaderProgress
import IspSession.Analysis.ArrayFraming
import IspSession.Analysis.SideChanges
import IspSession.Analysis.ScalarPassages
import IspSession.Analysis.ManagedSideChanges
import IspSession.Model.Redlock
import IspSession.Analysis.LockSafety
import IspSession.Model.VisitorSystem
import IspSession.Analysis.VisitorIsolation
import IspSession.Model.PoolTraffic
import IspSession.Analysis.ReplyPairing
import IspSession.Analysis.SharedVariables
import IspSession.Library.Locality
import IspSession.Model.BrowserTraffic
import IspSession.Analysis.BrowserIsolation
import IspSession.Analysis.LockProgress
import IspSession.Model.BrowserTraffic
import IspSession.Analysis.SlidingExpiration
import IspSession.Analysis.RecordRefinement
import IspSession.Analysis.SiteIsolation
