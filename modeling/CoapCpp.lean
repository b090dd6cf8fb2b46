import CoapCpp.Bounds
import CoapCpp.Faithful
import CoapCpp.Options
import CoapCpp.RoundTrip
import CoapCpp.BlockDecoding
import CoapCpp.ByteOrder
import CoapCpp.Endpoint
import CoapCpp.UriRoundTrip
import CoapCpp.CoreLinkRoundTrip
import CoapCpp.CoreLinkMemory
import CoapCpp.Base64Acceptance
import CoapCpp.SenmlRoundTrip
import CoapCpp.SenmlFields
import CoapCpp.SenmlReport
import CoapCpp.AllOrNothing
import CoapCpp.Connection
import CoapCpp.Processing
import CoapCpp.ServerPool
import CoapCpp.PicoLink
import CoapCpp.ClientSession
import CoapCpp.ConnectedClient
import CoapCpp.Transfer
import CoapCpp.UdpClient
import CoapCpp.Buffer
