import TalusVSwitch.Library.Execution
import TalusVSwitch.Library.Dedup
import TalusVSwitch.Library.ChunkedRead
import TalusVSwitch.Library.Numeral
import TalusVSwitch.Library.Pieces
import TalusVSwitch.Library.Packing
import TalusVSwitch.Library.Interrupted
import TalusVSwitch.Library.DoWhile
import TalusVSwitch.Library.Sweep
import TalusVSwitch.SockAddr
import TalusVSwitch.Frame
import TalusVSwitch.CText
import TalusVSwitch.MacText
import TalusVSwitch.MacForms
import TalusVSwitch.InetText
import TalusVSwitch.ArpMap
import TalusVSwitch.Compression
import TalusVSwitch.Transport
import TalusVSwitch.Streaming
import TalusVSwitch.MacMap
import TalusVSwitch.Ageing
import TalusVSwitch.Learning
import TalusVSwitch.Broadcast
import TalusVSwitch.FanOutOrder
import TalusVSwitch.VSwitch
import TalusVSwitch.ReceiveBounds
import TalusVSwitch.TableInvariant
import TalusVSwitch.Flight
import TalusVSwitch.Flood
import TalusVSwitch.UnicastDelivery
import TalusVSwitch.Star
import TalusVSwitch.Control
import TalusVSwitch.PeerResponse
import TalusVSwitch.PeerList
import TalusVSwitch.ControlFrames
import TalusVSwitch.ResponseText
import TalusVSwitch.Network
import TalusVSwitch.StationRun
import TalusVSwitch.SplitHorizon
import TalusVSwitch.DirectPath
import TalusVSwitch.JsonValue
import TalusVSwitch.JsonText
import TalusVSwitch.JsonPrune
import TalusVSwitch.Pruning
import TalusVSwitch.Library.Multimap
import TalusVSwitch.Library.Timers
import TalusVSwitch.Poller
import TalusVSwitch.Daemon
import TalusVSwitch.TaskList
import TalusVSwitch.TaskQueue
import TalusVSwitch.KnownPeers
import TalusVSwitch.Placeholder
import TalusVSwitch.KeepAlive
import TalusVSwitch.Wire
import TalusVSwitch.Integrity
import TalusVSwitch.Library.Walk
import TalusVSwitch.Routing
import TalusVSwitch.Discovery
import TalusVSwitch.Gradient
import TalusVSwitch.JsonReader
import TalusVSwitch.JsonStrings
import TalusVSwitch.JsonNumbers
import TalusVSwitch.JsonRoundTrip
import TalusVSwitch.JsonExchange
import TalusVSwitch.JsonAccepted
import TalusVSwitch.Entity
