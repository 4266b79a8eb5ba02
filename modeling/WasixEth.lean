import WasixEth.Lib.Routine
import WasixEth.Lib.Keccak
import WasixEth.Lib.Rlp
import WasixEth.Lib.Table
import WasixEth.Storage.TrieDeletion
import WasixEth.Storage.TrieMap
import WasixEth.Storage.FreshTrie
import WasixEth.Storage.TrieChanges
import WasixEth.Storage.Overwriting
import WasixEth.Storage.Deleting
import WasixEth.Storage.OwnWrites
import WasixEth.Storage.Logs
import WasixEth.Engine.ReorgHandler
import WasixEth.Engine.ChainManager
import WasixEth.Engine.PayloadProcessor
import WasixEth.Engine.FailedForkchoice
import WasixEth.Engine.Runs
import WasixEth.Engine.ConsistentChoice
import WasixEth.Engine.Lookups
import WasixEth.Engine.HardMarks
import WasixEth.Engine.OrphanPool
import WasixEth.Consensus
import WasixEth.Engine.Building
import WasixEth.Engine.Accepted
import WasixEth.Execution.PlainMeaning
import WasixEth.Execution.Admissible
import WasixEth.Execution.Billing
import WasixEth.Execution.BlockHash
import WasixEth.Execution.Receipts
import WasixEth.Engine.Skipping
import WasixEth.Tips
import WasixEth.Engine.Mapper
import WasixEth.P2p.ForkRules
import WasixEth.P2p.PeerRegistry
import WasixEth.P2p.Correlating
import WasixEth.P2p.ProvenEndpoints
import WasixEth.P2p.SessionReads
import WasixEth.P2p.PacketRoundTrip
import WasixEth.Mempool.NonceGaps
import WasixEth.Mempool.SideTables
import WasixEth.Engine.Revalidating
import WasixEth.BaseFee
import WasixEth.Execution.Delegation
import WasixEth.Mempool.Replacing
import WasixEth.Mempool.Evicting
import WasixEth.Mempool.Selecting
import WasixEth.Mempool.Popping
import WasixEth.Engine.Readding
import WasixEth.Engine.Descendants
import WasixEth.Engine.DecidingAncestry
import WasixEth.Engine.JudgingAttributes
import WasixEth.Sync.FetchingAncestors
import WasixEth.P2p.HeaderRequests
import WasixEth.P2p.Negotiating
import WasixEth.Storage.AllEntries
import WasixEth.Storage.IteratingTrie
import WasixEth.Storage.HistoricalAccounts
import WasixEth.Execution.BlockRewards
import WasixEth.Sync.Announcing
import WasixEth.Mempool.KeepingPayable
import WasixEth.Execution.DepositLogs
import WasixEth.Sync.BestPeer
import WasixEth.P2p.RoutingTable
import WasixEth.Storage.NodeRoundTrip
import WasixEth.Storage.Records
import WasixEth.P2p.AgreedSecrets
import WasixEth.P2p.UnbrokenExchange
import WasixEth.P2p.Meeting
import WasixEth.Storage.FirstReads
import WasixEth.Storage.GenesisRestart
