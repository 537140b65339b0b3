import CanBinder.BitField
import CanBinder.SearchTree
import CanBinder.PtrChain
import CanBinder.MarkedWords
import CanBinder.CBuffer
import CanBinder.Machine
import CanBinder.Simulation
import CanBinder.PeriodicTimer
import CanBinder.Json
import CanBinder.Numerals
import CanBinder.CanidInfo
import CanBinder.CanidSearch
import CanBinder.CanJson
import CanBinder.BindEvent
import CanBinder.CanSignalEvent
import CanBinder.Binding
import CanBinder.SocketcanRaw
import CanBinder.Codec
import CanBinder.FieldWrites
import CanBinder.Layout
import CanBinder.Registration
import CanBinder.Loaded
import CanBinder.Compaction
import CanBinder.Configuration
import CanBinder.ConversionTables
import CanBinder.Enumerations
import CanBinder.Locality
import CanBinder.Decoding
import CanBinder.Values
import CanBinder.SetAndGet
import CanBinder.ReportedChanges
import CanBinder.Events
import CanBinder.ChainUpdate
import CanBinder.Sending
import CanBinder.SetReply
import CanBinder.Reception
import CanBinder.Subscriptions
import CanBinder.Membership
import CanBinder.Ledger
import CanBinder.ReceiveFilter
import CanBinder.StandardFrames
import CanBinder.ThinOut
import CanBinder.Topics
import CanBinder.NotifyLaw
import CanBinder.Renotification
import CanBinder.Delivery
import CanBinder.Notifications
import CanBinder.IntReports
import CanBinder.TableReports
import CanBinder.KeyOrder
import CanBinder.CanidKeys
import CanBinder.StarRequests
import CanBinder.ZoneNames
import CanBinder.NameBuffers
import CanBinder.AppliedEntries
import CanBinder.SignalServer
import CanBinder.SignalUpdate
import CanBinder.ServerRefinement
import CanBinder.ServerDefinition
import CanBinder.Transmission
import CanBinder.Audiences
import CanBinder.NameIndependence
import CanBinder.ClientIndependence
import CanBinder.EventLoop
import CanBinder.SendTimers
import CanBinder.SendCadence
import CanBinder.Transfer
import CanBinder.EventAccount
import CanBinder.FileOrder
import CanBinder.Repeats
import CanBinder.Convergence
