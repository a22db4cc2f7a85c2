import FiveGProxy.Library.Steps
import FiveGProxy.Library.Memory
import FiveGProxy.Library.LengthPrefixed
import FiveGProxy.Protocol.Datagram
import FiveGProxy.UdpSession.Framing
import FiveGProxy.UdpSession.Streams
import FiveGProxy.Relay.HotLoop
import FiveGProxy.Lifecycle.Stop
import FiveGProxy.Lifecycle.Teardown
import FiveGProxy.Slots.Ghost
import FiveGProxy.Slots.Stranded
import FiveGProxy.Slots.Late
import FiveGProxy.Slots.Lost
import FiveGProxy.Handshake.Auth
import FiveGProxy.UdpDns.Fidelity
import FiveGProxy.UdpDns.Release
import FiveGProxy.UdpDns.Delivery
import FiveGProxy.UdpDns.Names
import FiveGProxy.Relay.Grace
import FiveGProxy.Handshake.Balance
import FiveGProxy.Handshake.Replies
import FiveGProxy.Slots.Quota
import FiveGProxy.UdpDns.Isolation
import FiveGProxy.Listeners.Ownership
import FiveGProxy.Service.NetworkStatus
import FiveGProxy.Service.LastCommand
import FiveGProxy.Sockets.Winner
import FiveGProxy.Sockets.ActiveSockets
import FiveGProxy.Relay.HalfClose
import FiveGProxy.Slots.GhostPurge
import FiveGProxy.Handshake.Credentials
import FiveGProxy.UdpDns.Conservation
import FiveGProxy.Lookup.Model
import FiveGProxy.Lookup.Followers
import FiveGProxy.Lookup.Barrier
import FiveGProxy.UdpSession.Masks
import FiveGProxy.UdpSession.HotLoop
import FiveGProxy.UdpSession.Refinement
import FiveGProxy.Lifecycle.Traffic
import FiveGProxy.Lookup.SingleFlight
import FiveGProxy.UdpDns.Cache
import FiveGProxy.Slots.Exhaustion
import FiveGProxy.Handshake.PoolProgress
import FiveGProxy.Protocol.Codec
import FiveGProxy.Lookup.IpLiteral
import FiveGProxy.Slots.Allocator
import FiveGProxy.Slots.Simulation
import FiveGProxy.Slots.ScanEnds
import FiveGProxy.Slots.ListSimulation
import FiveGProxy.Network.WakeUp
import FiveGProxy.Network.Resume
import FiveGProxy.Lookup.Bound
import FiveGProxy.Lookup.Freshness
import FiveGProxy.Handshake.Diagnosis
import FiveGProxy.Handshake.Alone
import FiveGProxy.Slots.PurgeEffect
