import NetworkLabs.Library.MachineInt
import NetworkLabs.Library.BoundedFifo
import NetworkLabs.Library.SortedMap
import NetworkLabs.Sponge.ByteStream
import NetworkLabs.Sponge.TCPSegment
import NetworkLabs.Library.ListSlice
import NetworkLabs.Sponge.StreamReassembler
import NetworkLabs.Sponge.StreamReassembler.Merge
import NetworkLabs.Sponge.StreamReassembler.Assemble
import NetworkLabs.Library.Transition
import NetworkLabs.Sponge.StreamReassembler.Push
import NetworkLabs.Sponge.StreamReassembler.Refinement
import NetworkLabs.Sponge.TCPReceiver
import NetworkLabs.Sponge.TCPReceiver.HonestPeer
import NetworkLabs.Sponge.TCPSender
import NetworkLabs.Sponge.TCPSender.Steps
import NetworkLabs.Sponge.TCPSender.Acks
import NetworkLabs.Sponge.TCPSender.Counting
import NetworkLabs.Sponge.TCPSender.Timer
import NetworkLabs.Sponge.TCPState
import NetworkLabs.Sponge.TCPSender.Window
import NetworkLabs.Sponge.TCPSender.Segmentation
import NetworkLabs.Sponge.TCPSender.Transmissions
import NetworkLabs.Sponge.TCPConnection
import NetworkLabs.Sponge.TCPConnection.Steps
import NetworkLabs.Sponge.TCPConnection.AckFlag
import NetworkLabs.Sponge.Network
import NetworkLabs.Sponge.TCPConnection.Outbound
import NetworkLabs.Sponge.TCPConnection.Inbound
import NetworkLabs.Sponge.Network.Safety
import NetworkLabs.Sponge.TCPConnection.Closing
import NetworkLabs.Sponge.Network.Close
import NetworkLabs.AddressTranslation.Packet
import NetworkLabs.Library.FirstMatch
import NetworkLabs.AddressTranslation.Table
import NetworkLabs.AddressTranslation.Steps
import NetworkLabs.AddressTranslation.Inversion
import NetworkLabs.AddressTranslation.Ports
import NetworkLabs.AddressTranslation.Flows
import NetworkLabs.AddressTranslation.Completion
import NetworkLabs.AddressTranslation.Rules
import NetworkLabs.AddressTranslation.Unsolicited
import NetworkLabs.Ethernet
import NetworkLabs.Switching.Table
import NetworkLabs.Switching.LearnedPorts
import NetworkLabs.Router.ArpCache
import NetworkLabs.Router.Forwarding
import NetworkLabs.Router.ArpTable
import NetworkLabs.Router.PendingOrder
import NetworkLabs.Router.PrefixMatch
import NetworkLabs.Library.OnesComplement
import NetworkLabs.Router.Checksum
import NetworkLabs.Router.ForwardingLaw
import NetworkLabs.Sponge.TCPSender.Sends
import NetworkLabs.Sponge.TCPConnection.Phase
import NetworkLabs.Sponge.TCPConnection.Replies
import NetworkLabs.Sponge.TCPConnection.Silence
import NetworkLabs.Sponge.TCPConnection.Addressing
import NetworkLabs.Sponge.TCPConnection.Ending
import NetworkLabs.Sponge.Network.CleanClose
import NetworkLabs.Sponge.TCPConnection.Opening
import NetworkLabs.Sponge.Network.Exchange
import NetworkLabs.Sponge.Network.Silence
import NetworkLabs.Library.BigEndian
import NetworkLabs.Sponge.Wire.Parser
import NetworkLabs.Sponge.Wire.InternetChecksum
import NetworkLabs.Sponge.Wire.TCPSegment
import NetworkLabs.Sponge.Wire.IPv4Datagram
import NetworkLabs.Sponge.Wire.TCPOverIPv4
import NetworkLabs.Sponge.Wire.Acceptance
import NetworkLabs.Sponge.ByteStream.Runs
import NetworkLabs.Sponge.WrappingIntegers.Nearest
import NetworkLabs.Sponge.ByteStream.Cursors
import NetworkLabs.Sponge.ByteStream.Sealed
import NetworkLabs.Sponge.TCPConnection.Sealed
import NetworkLabs.Sponge.TCPConnection.AdvertisedWindow
import NetworkLabs.Sponge.StreamReassembler.Lengths
import NetworkLabs.Sponge.TCPReceiver.StreamIndex
import NetworkLabs.Sponge.StreamReassembler.Capacity
import NetworkLabs.Library.Halting
import NetworkLabs.Router.Icmp
import NetworkLabs.Router.Locking
import NetworkLabs.Router.Relocking
import NetworkLabs.AddressTranslation.Sending
import NetworkLabs.Router.Messages
import NetworkLabs.Router.MissingRoute
import NetworkLabs.Router.EchoReply
import NetworkLabs.Router.ErrorMessage
import NetworkLabs.Router.Replacement
import NetworkLabs.Router.GivingUp
import NetworkLabs.Switching.ForwardingSet
import NetworkLabs.Switching.Ageing
import NetworkLabs.Switching.Buckets
import NetworkLabs.AddressTranslation.Checksums
import NetworkLabs.Router.SharedChecksum
import NetworkLabs.Library.CString
import NetworkLabs.Router.NextHop
import NetworkLabs.Router.Buffers
import NetworkLabs.Router.PendingLists
import NetworkLabs.Router.RoutingList
import NetworkLabs.Switching.MacPortLists
import NetworkLabs.Sponge.EventLoop.Services
import NetworkLabs.Sponge.TCPSpongeSocket.Hosts
import NetworkLabs.Sponge.BidirectionalStreamCopy
import NetworkLabs.AddressTranslation.Config
import NetworkLabs.AddressTranslation.ConfigLines
import NetworkLabs.Library.TreeFlooding
import NetworkLabs.Switching.HubTree
import NetworkLabs.Switching.SwitchTree
