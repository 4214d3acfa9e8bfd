import Switchboard.Text.Blank
import Switchboard.Fault.Call
import Switchboard.Wire.Header
import Switchboard.Link.Basic
import Switchboard.Link.Connection
import Switchboard.Frame.Inbound
import Switchboard.Frame.Outbound
import Switchboard.Channel
import Switchboard.Scenario.Exchange
import Switchboard.Client.Basic
import Switchboard.Client.Codec
import Switchboard.Client.Framed
import Switchboard.Client.Rehearsal
import Switchboard.Client.Session
import Switchboard.Tunnel
import Switchboard.Scenario.Calls
import Switchboard.Endpoint.Address
import Switchboard.Endpoint.Settings
import Switchboard.Endpoint.SocketPath
import Switchboard.Scenario.Endpoints
import Switchboard.Proofs.Client.Accounting
import Switchboard.Proofs.Client.WriteLock
import Switchboard.Proofs.Client.Closing
import Switchboard.Proofs.Client.Alignment
import Switchboard.Proofs.Client.Correlation
import Switchboard.Proofs.Client.Refusal
import Switchboard.Proofs.Client.Watch
import Switchboard.Proofs.Client.Traffic
import Switchboard.Proofs.Client.Silence
import Switchboard.Proofs.Client.Turns
import Switchboard.Proofs.Client.Pieces
import Switchboard.Proofs.Frame.Departure
import Switchboard.Proofs.Frame.Headway
import Switchboard.Proofs.Wire.RoundTrip
import Switchboard.Proofs.Client.Smooth
import Switchboard.Proofs.Client.Service
import Switchboard.Proofs.Client.Conversation
import Switchboard.Proofs.Client.Quiet
import Switchboard.Proofs.Client.Fidelity
import Switchboard.Proofs.Client.Completion
import Switchboard.Proofs.Client.Effort
import Switchboard.Proofs.Client.Parting
import Switchboard.Proofs.Client.Leftover
import Switchboard.Proofs.Client.Occasions
import Switchboard.Proofs.Frame.Ledger
import Switchboard.Proofs.Frame.OneShot
import Switchboard.Proofs.Frame.Segments
import Switchboard.Proofs.Wire.Linked
import Switchboard.Proofs.Client.Bystander
import Switchboard.Proofs.Tunnel.Handover
import Switchboard.Proofs.Channel.Delivery
import Switchboard.Proofs.Client.Termination
import Switchboard.Proofs.Client.Confinement
import Switchboard.Proofs.Client.Unsent
import Switchboard.Proofs.Client.Arrivals
import Switchboard.Proofs.Client.Sharing
import Switchboard.Proofs.Client.Unseen
import Switchboard.Proofs.Client.Single
import Switchboard.Proofs.Frame.Orders
import Switchboard.Proofs.Frame.Retries
import Switchboard.Proofs.Frame.Skipping
import Switchboard.Proofs.Frame.Roundtrip
import Switchboard.Proofs.Wire.Prefixes
import Switchboard.Proofs.Wire.Sizes
import Switchboard.Proofs.Tunnel.Refused
import Switchboard.Proofs.Tunnel.RequestLine
import Switchboard.Proofs.Frame.Standstill
