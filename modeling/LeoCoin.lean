import LeoCoin.Library.Decoding
import LeoCoin.Library.Codec
import LeoCoin.Library.Transition
import LeoCoin.Library.Publication
import LeoCoin.Library.HashChain
import LeoCoin.Library.Logging
import LeoCoin.Library.Rounding
import LeoCoin.Endian
import LeoCoin.Types
import LeoCoin.Hashing
import LeoCoin.Verify
import LeoCoin.FirstInvalid
import LeoCoin.Mining
import LeoCoin.Accesses
import LeoCoin.Preimage
import LeoCoin.Serialization
import LeoCoin.RoundTrip
import LeoCoin.Overread
import LeoCoin.SignatureLength
import LeoCoin.Portability
import LeoCoin.Networking
import LeoCoin.Declared
import LeoCoin.Receive
import LeoCoin.Consensus
import LeoCoin.HostExchange
import LeoCoin.Decision
import LeoCoin.ConsensusClient
import LeoCoin.ConsensusServers
import LeoCoin.Node
import LeoCoin.Ownership
import LeoCoin.Switch
import LeoCoin.Resync
import LeoCoin.Longest
import LeoCoin.Adoption
import LeoCoin.Peers
import LeoCoin.PeerExpiry
import LeoCoin.PeerDiscovery
import LeoCoin.PeerClient
import LeoCoin.Library.Search
import LeoCoin.ProofSearch
import LeoCoin.Transfer
import LeoCoin.Framing
import LeoCoin.PeerFormat
import LeoCoin.Library.Chain
import LeoCoin.PeerHeap
import LeoCoin.LinkedList
import LeoCoin.PeerRecords
import LeoCoin.Library.Calls
import LeoCoin.Workers
import LeoCoin.BroadcastThread
import LeoCoin.Sessions
import LeoCoin.Descriptors
import LeoCoin.Library.Locking
import LeoCoin.Locks
import LeoCoin.Library.Imperative
import LeoCoin.ListHeap
import LeoCoin.ListRuns
import LeoCoin.Library.Gossip
import LeoCoin.World
import LeoCoin.Provenance
import LeoCoin.Dissemination
import LeoCoin.Library.Leases
import LeoCoin.Registry
import LeoCoin.ChainFile
import LeoCoin.Library.Cells
import LeoCoin.Library.Owning
import LeoCoin.ChainMemory
import LeoCoin.ChainDecoding
import LeoCoin.NodeMemory
import LeoCoin.Library.Custody
import LeoCoin.Superseded
import LeoCoin.Library.Triples
import LeoCoin.SignatureObjects
import LeoCoin.ChainReading
import LeoCoin.ExchangeMemory
import LeoCoin.ExchangeSides
import LeoCoin.ExchangeRuns
import LeoCoin.MinerProcess
