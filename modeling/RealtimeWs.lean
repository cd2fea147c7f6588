import RealtimeWs.Lib.Window
import RealtimeWs.Lib.Machine
import RealtimeWs.Lib.Fifo
import RealtimeWs.Lib.Checkpoint
import RealtimeWs.Core.CString
import RealtimeWs.Core.Mulaw
import RealtimeWs.Core.Base64
import RealtimeWs.Core.CJson
import RealtimeWs.Core.Protocol
import RealtimeWs.Core.Queue
import RealtimeWs.Core.Playout
import RealtimeWs.Core.Session
import RealtimeWs.Core.Outbound
import RealtimeWs.Core.Marks
import RealtimeWs.Mod.Metadata
import RealtimeWs.Mod.Bridge
import RealtimeWs.Mod.Delivery
import RealtimeWs.Mod.World
import RealtimeWs.Mod.Handshake
import RealtimeWs.Mod.HandshakeRun
import RealtimeWs.Mod.Reconnect
import RealtimeWs.Mod.Retries
import RealtimeWs.Lib.Octave
import RealtimeWs.Core.Transcode
import RealtimeWs.Core.CJsonRound
import RealtimeWs.Core.Uplink
import RealtimeWs.Lib.Stream
import RealtimeWs.Mod.Downlink
import RealtimeWs.Mod.TimeBase
import RealtimeWs.Lib.Decoder
import RealtimeWs.Core.WsClient
import RealtimeWs.Core.WsFrames
import RealtimeWs.Lib.Threads
import RealtimeWs.Mod.Threads
import RealtimeWs.Mod.Handles
import RealtimeWs.Mod.WireBytes
import RealtimeWs.Core.Numbering
import RealtimeWs.Mod.LastMessage
import RealtimeWs.Core.StreamSid
import RealtimeWs.Core.MessageRound
import RealtimeWs.Lib.Lines
import RealtimeWs.Mod.SplitMetadata
import RealtimeWs.Mod.UpgradeRequest
import RealtimeWs.Core.Base64Quads
import RealtimeWs.Core.Base64Decode
import RealtimeWs.Lib.DropOldest
import RealtimeWs.Core.QueueRefines
import RealtimeWs.Lib.Markers
import RealtimeWs.Core.PlayoutRefines
import RealtimeWs.Core.Rejected
import RealtimeWs.Lib.Packer
import RealtimeWs.Mod.Packing
import RealtimeWs.Mod.Injection
import RealtimeWs.Core.Upgrade
import RealtimeWs.Core.WriteAll
import RealtimeWs.Core.FrameSafety
import RealtimeWs.Core.QueueFailures
import RealtimeWs.Core.Url
import RealtimeWs.Mod.Connect
import RealtimeWs.Core.StatusCode
import RealtimeWs.Lib.Stopwatch
import RealtimeWs.Core.ClearLatency
import RealtimeWs.Mod.Stats
import RealtimeWs.Mod.StreamIds
import RealtimeWs.Mod.LocalText
import RealtimeWs.Mod.SendMark
import RealtimeWs.Core.MarkEcho
import RealtimeWs.Mod.InFlight
import RealtimeWs.Mod.PeerView
import RealtimeWs.Lib.Progress
import RealtimeWs.Mod.Control
import RealtimeWs.Mod.StopReturns
import RealtimeWs.Core.JsonText
import RealtimeWs.Core.Vocabulary
import RealtimeWs.Mod.SessionCalls
import RealtimeWs.Mod.Sendable
import RealtimeWs.Lib.Ledger
import RealtimeWs.Core.QueueMemory
import RealtimeWs.Core.SessionMemory
import RealtimeWs.Core.ClientMemory
import RealtimeWs.Mod.StartMemory
import RealtimeWs.Mod.BridgeMemory
import RealtimeWs.Mod.Capture
import RealtimeWs.Core.QueuedAudio
import RealtimeWs.Mod.PeerHears
import RealtimeWs.Mod.Command
import RealtimeWs.Mod.Played
