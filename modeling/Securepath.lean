import Securepath.Library.StateExcept
import Securepath.Library.Unwinding
import Securepath.Library.Positional
import Securepath.Library.PrefixParser
import Securepath.Library.StreamFraming
import Securepath.Serialisation.Types
import Securepath.Serialisation.BufferedStream
import Securepath.Serialisation.Integers
import Securepath.Serialisation.Decoder
import Securepath.Serialisation.PacketDeserialiser
import Securepath.Serialisation.Real
import Securepath.Serialisation.Time
import Securepath.Serialisation.Schema
import Securepath.Serialisation.Deserialiser
import Securepath.Serialisation.Encoder
import Securepath.Serialisation.Serialiser
import Securepath.Serialisation.Acceptance
import Securepath.Serialisation.RoundTrip
import Securepath.Library.Machine
import Securepath.PacketTransport.Storage
import Securepath.Serialisation.Injectivity
import Securepath.Serialisation.AbsentOptional
import Securepath.Crypto.Objects
import Securepath.Crypto.SignedContent
import Securepath.Crypto.CertificateChain
import Securepath.Crypto.ChainValidation
import Securepath.Crypto.ChainBuilder
import Securepath.Crypto.CertificateStores
import Securepath.Crypto.Revocation
import Securepath.Crypto.RevocationLookup
import Securepath.PacketTransport.Ledger
import Securepath.PacketTransport.StorageRuns
import Securepath.PacketTransport.StorageCorrectness
import Securepath.PacketTransport.Server
import Securepath.PacketTransport.ServerSafety
import Securepath.Network.TlsStream
import Securepath.Network.TlsStreamReads
import Securepath.Network.TlsStreamQueue
import Securepath.Network.TlsStreamHandlers
import Securepath.Network.TlsStreamWrites
import Securepath.Network.TlsStreamShutdown
import Securepath.Network.Framing
import Securepath.Network.SendQueue
import Securepath.Network.Connection
import Securepath.KeyServer.KeyStore
import Securepath.KeyServer.KeyClient
import Securepath.KeyServer.Protocol
import Securepath.KeyServer.ProtocolRoundTrip
import Securepath.Serialisation.Sizes
import Securepath.PacketTransport.SendPacket
import Securepath.PacketTransport.PacketSizes
import Securepath.Network.HandshakeMessages
import Securepath.Network.Handshake
import Securepath.Network.HandshakeSafety
import Securepath.Network.ClientHandshake
import Securepath.Network.ChannelBinding
import Securepath.Library.Savepoints
import Securepath.Database.Transaction
import Securepath.Network.EncryptedServer
import Securepath.Serialisation.ExactIntegers
import Securepath.EventSystem.EventLoop
import Securepath.Serialisation.Unwinding
import Securepath.Serialisation.Truncation
import Securepath.Serialisation.MissingElements
import Securepath.Serialisation.AbandonedElements
import Securepath.Serialisation.Allocation
import Securepath.Serialisation.Alignment
import Securepath.KeyServer.ForwardCompatibility
import Securepath.Crypto.HostRestrictions
import Securepath.Network.BindingContexts
import Securepath.Util.StringUtil
import Securepath.Util.Sanitiser
import Securepath.Library.Keystream
import Securepath.Crypto.AesGcm
import Securepath.Crypto.GcmStreaming
import Securepath.Crypto.ImplicitCounter
import Securepath.Serialisation.ExactHeaders
import Securepath.Serialisation.PrimitiveRoundTrip
import Securepath.Serialisation.RecursiveTypes
import Securepath.Serialisation.Termination
import Securepath.PacketTransport.ServerClient
import Securepath.Serialisation.RealRoundTrip
import Securepath.Serialisation.Locality
import Securepath.Serialisation.CursorRefinement
import Securepath.Console.History
import Securepath.Audio.AudioFormat
import Securepath.Audio.Resample
import Securepath.Audio.RiffFormat
import Securepath.Audio.Wav
import Securepath.Audio.WavSafety
import Securepath.Audio.WavRoundTrip
import Securepath.Util.Resynchronisation
import Securepath.Util.CommandFidelity
import Securepath.PacketTransport.Client
import Securepath.PacketTransport.Transport
import Securepath.PacketTransport.StorageFlow
import Securepath.PacketTransport.ServerFlow
import Securepath.PacketTransport.TransportSafety
import Securepath.PacketTransport.Durability
import Securepath.PacketTransport.Authenticity
import Securepath.PacketTransport.Progress
import Securepath.PacketTransport.HybridKem
import Securepath.PacketTransport.Envelope
import Securepath.PacketTransport.Delivery
import Securepath.Common.KeyValue
import Securepath.EventSystem.Broadcast
import Securepath.Keygen.Pki
