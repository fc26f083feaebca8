import GravitalTalk.Core.Corruption
import GravitalTalk.Transport.JitterRing
import GravitalTalk.Transport.AddressBook
import GravitalTalk.Session.Stranger
import GravitalTalk.Session.Token
import GravitalTalk.Session.Delivery
import GravitalTalk.Session.Redirect
import GravitalTalk.Session.Closed
import GravitalTalk.Session.RoomFec
import GravitalTalk.Session.Stream
import GravitalTalk.Session.Loops
import GravitalTalk.Session.Nonces
import GravitalTalk.Session.Numbering
import GravitalTalk.Session.Members
import GravitalTalk.Transport.Registry
import GravitalTalk.Transport.RendezvousFormat
import GravitalTalk.Transport.ReplayMarks
import GravitalTalk.Relay.Floor
import GravitalTalk.Relay.Registration
import GravitalTalk.Transport.Pairing
import GravitalTalk.Relay.Ingress
import GravitalTalk.Session.Codec
import GravitalTalk.Session.Attempts
import GravitalTalk.Relay.Network
import GravitalTalk.Session.Handover
import GravitalTalk.Session.Admission
import GravitalTalk.Session.Oversize
import GravitalTalk.Session.Signals
import GravitalTalk.Transport.FecGroup
import GravitalTalk.Session.Echo
import GravitalTalk.Core.FloorController
import GravitalTalk.Core.Fragment
import GravitalTalk.Relay.RateLimit
import GravitalTalk.Session.LossFree
import GravitalTalk.Session.Newcomer
import GravitalTalk.Transport.PairingCode
import GravitalTalk.Transport.BookOrder
import GravitalTalk.Transport.Stun
import GravitalTalk.Relay.FloorAnswers
import GravitalTalk.Core.Payload
import GravitalTalk.Transport.Knock
import GravitalTalk.Core.JitterEstimate
import GravitalTalk.Session.Construct
import GravitalTalk.Session.PathHints
import GravitalTalk.Client.CodecSession
import GravitalTalk.Io.PlayoutQueue
import GravitalTalk.App.Contacts
import GravitalTalk.Session.Forgeries
import GravitalTalk.Transport.ReplayShift
import GravitalTalk.Core.ChecksumTables
import GravitalTalk.App.Repairing
import GravitalTalk.Relay.RoomBody
import GravitalTalk.Session.PunchNetwork
import GravitalTalk.App.Listening
import GravitalTalk.App.Ringing
import GravitalTalk.Session.HandshakeNetwork
import GravitalTalk.Relay.RoomSecrets
