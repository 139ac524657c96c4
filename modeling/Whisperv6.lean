import Whisperv6.ProofKit.Float64
import Whisperv6.ProofKit.Rounding
import Whisperv6.ProofKit.Go
import Whisperv6.ProofKit.ByteString
import Whisperv6.ProofKit.Rlp
import Whisperv6.ProofKit.RlpStream
import Whisperv6.ProofKit.Scan
import Whisperv6.ProofKit.Runs
import Whisperv6.ProofKit.Lagging
import Whisperv6.ProofKit.Inbox
import Whisperv6.Bloom
import Whisperv6.Envelope
import Whisperv6.Message
import Whisperv6.Filter
import Whisperv6.Node
import Whisperv6.Peer
import Whisperv6.Pool
import Whisperv6.WireFormat
import Whisperv6.Tolerance
import Whisperv6.Grace
import Whisperv6.Notification
import Whisperv6.MessageLoop
import Whisperv6.Forwarding
import Whisperv6.Divisor
import Whisperv6.BundleSize
import Whisperv6.RoundTrip
import Whisperv6.FilterIndex
import Whisperv6.Subscription
import Whisperv6.SubscribeRace
import Whisperv6.Delivery
import Whisperv6.DirectDelivery
import Whisperv6.Net
import Whisperv6.Accounting
import Whisperv6.Transmission
import Whisperv6.Mailbox
import Whisperv6.Loops
import Whisperv6.LightClient
import Whisperv6.Links
import Whisperv6.Convergence
import Whisperv6.Echo
import Whisperv6.Known
import Whisperv6.ProofKit.RlpSlice
import Whisperv6.ProofKit.RlpSession
import Whisperv6.Handshake
import Whisperv6.MailServer
import Whisperv6.Dispatch
import Whisperv6.DirectChannel
import Whisperv6.Trust
import Whisperv6.ProofKit.Funnel
import Whisperv6.Completion
import Whisperv6.Confirmation
import Whisperv6.ProofKit.Bits
import Whisperv6.TopicBits
import Whisperv6.ProofKit.Search
import Whisperv6.Responses
import Whisperv6.Sealing
import Whisperv6.Plaintext
import Whisperv6.Admission
import Whisperv6.Sharing
import Whisperv6.Acknowledgement
import Whisperv6.Advertising
import Whisperv6.Snapshot
import Whisperv6.KeyStore
import Whisperv6.Identities
import Whisperv6.SymKeys
import Whisperv6.Api
import Whisperv6.ProofKit.Mealy
import Whisperv6.ProofKit.TokenBucket
import Whisperv6.RateLimiter
import Whisperv6.Decorator
import Whisperv6.BloomRange
import Whisperv6.Station
import Whisperv6.Mesh
import Whisperv6.Gossip
import Whisperv6.Settling
import Whisperv6.MailSession
import Whisperv6.Feed
import Whisperv6.Poller
import Whisperv6.Post
import Whisperv6.World
