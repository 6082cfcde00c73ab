import MotteSeed.Toolkit.Runs
import MotteSeed.Toolkit.Loops
import MotteSeed.Toolkit.Chunks
import MotteSeed.Toolkit.Exchange
import MotteSeed.Toolkit.Refresh
import MotteSeed.Toolkit.HashTable
import MotteSeed.PeerWire
import MotteSeed.Toolkit.ByteImage
import MotteSeed.Toolkit.Framing
import MotteSeed.PeerConnection
import MotteSeed.OutboundStream
import MotteSeed.InboundStream
import MotteSeed.MessageRoundTrip
import MotteSeed.MessageGrammar
import MotteSeed.Conversation
import MotteSeed.Toolkit.Bitfield
import MotteSeed.TorrentMeta
import MotteSeed.PieceStore
import MotteSeed.Downloads
import MotteSeed.PieceShape
import MotteSeed.PieceLayout
import MotteSeed.PieceInvariant
import MotteSeed.DownloadSafety
import MotteSeed.PieceBlocks
import MotteSeed.PieceCalls
import MotteSeed.PieceStates
import MotteSeed.Unchoke
import MotteSeed.PieceSets
import MotteSeed.Availability
import MotteSeed.Requests
import MotteSeed.Interest
import MotteSeed.Toolkit.Channel
import MotteSeed.PeerTasks
import MotteSeed.Program
import MotteSeed.PeerTracking
import MotteSeed.CyclicWait
import MotteSeed.Persistence
import MotteSeed.EventLoop
import MotteSeed.SinglePeer
import MotteSeed.Toolkit.LexicalPath
import MotteSeed.Disk
import MotteSeed.DiskFiles
import MotteSeed.DiskImage
import MotteSeed.DiskOffsets
import MotteSeed.Toolkit.Placement
import MotteSeed.SharedFiles
import MotteSeed.DiskRoom
import MotteSeed.DiskPaths
import MotteSeed.Tracker
import MotteSeed.Toolkit.Percent
import MotteSeed.UdpTracker
import MotteSeed.HttpTracker
import MotteSeed.PeerLists
import MotteSeed.UdpExchange
import MotteSeed.ConnectionIds
import MotteSeed.TrackerPolling
import MotteSeed.UrlEncoding
import MotteSeed.TrackerUrl
import MotteSeed.DownloadedFiles
import MotteSeed.HonestPeers
import MotteSeed.HonestDownload
import MotteSeed.Toolkit.Greeting
import MotteSeed.Handshake
import MotteSeed.TrackerPool
import MotteSeed.Relay
import MotteSeed.SpokenMessages
import MotteSeed.Toolkit.Unreliable
import MotteSeed.UdpRequests
import MotteSeed.TrackerSession
import MotteSeed.Toolkit.FormQuery
import MotteSeed.AnnounceQuery
import MotteSeed.RequestTimeouts
import MotteSeed.TorrentFormat
import MotteSeed.Misreading
import MotteSeed.WiredProgram
