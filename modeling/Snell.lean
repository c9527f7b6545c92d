import Snell.Staged
import Snell.Binary64
import Snell.BoundedQueue
import Snell.Runs
import Snell.ExpiringQueue
import Snell.Chunks
import Snell.Exchange
import Snell.Base
import Snell.Buffer
import Snell.BufferFacts
import Snell.LittleEndian
import Snell.Crypto
import Snell.Record
import Snell.Header
import Snell.V4Padding
import Snell.V4PaddingFacts
import Snell.PaddingBits
import Snell.StagedDecoder
import Snell.V4
import Snell.Stages
import Snell.V4Decode
import Snell.V4Frame
import Snell.ReservationFacts
import Snell.Session
import Snell.EncodeRun
import Snell.SessionFacts
import Snell.EncoderSpec
import Snell.LawfulEncoder
import Snell.RecordSeals
import Snell.V4Encode
import Snell.RoundTrip
import Snell.V4RoundTrip
import Snell.StreamRoom
import Snell.PlainRecords
import Snell.Sockets
import Snell.Polling
import Snell.BufIo
import Snell.Receiving
import Snell.DecodeBatch
import Snell.Delivery
import Snell.EncodeBatch
import Snell.Unshaped
import Snell.UnshapedDecode
import Snell.UnshapedEncode
import Snell.UnshapedRoundTrip
import Snell.Prf
import Snell.SaltHide
import Snell.Profile
import Snell.Generators
import Snell.Mixing
import Snell.ProfileFacts
import Snell.Shaped
import Snell.ShapedDecode
import Snell.ShapedEncode
import Snell.ShapedRoundTrip
import Snell.BufferQueue
import Snell.Reservations
import Snell.Cancel
import Snell.PeerSafety
import Snell.SessionError
import Snell.Replay
import Snell.Address
import Snell.Control
import Snell.Socks5
import Snell.SocksConnect
import Snell.PooledBuffer
import Snell.SessionWrite
import Snell.SessionWriteFacts
import Snell.Socks5Facts
import Snell.Streaming
import Snell.SocksHandshake
import Snell.ControlFacts
import Snell.WireFormats
import Snell.InPlace
import Snell.FirstRequest
import Snell.Datagrams
import Snell.UdpForward
import Snell.NonceUse
import Snell.ShapedWire
import Snell.Shaping
import Snell.KdfLimiter
import Snell.BufferPool
import Snell.OpenRemote
import Snell.Reading
import Snell.SessionReading
import Snell.SealedRecords
import Snell.SealedCodecs
import Snell.PrefixIntegrity
import Snell.Text
import Snell.Config
import Snell.ConfigLayout
import Snell.ConfigEdits
import Snell.ReadRecord
import Snell.ZeroChunk
import Snell.PlainToSnell
import Snell.PlainToSnellFacts
import Snell.Sending
import Snell.Segments
import Snell.Hearing
import Snell.RecordWriter
import Snell.DecodeOnce
import Snell.Relay
import Snell.Motion
import Snell.Tunnels
import Snell.ClientSession
import Snell.ClientFacts
import Snell.ServerSession
import Snell.WritesAgree
import Snell.ServerFacts
import Snell.TunnelSystem
