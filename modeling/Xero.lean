import Xero.ActiveChain
import Xero.AddrManRuns
import Xero.AsMap
import Xero.Asert
import Xero.BestHeader
import Xero.BlockAssemblyRuns
import Xero.BlockDownload
import Xero.CheckQueue
import Xero.CoinStatsBinding
import Xero.CoinStatsRewind
import Xero.DescriptorChecksum
import Xero.EligibilityCheck
import Xero.EvictionProtection
import Xero.GcsFilter
import Xero.HeadersSyncHonest
import Xero.Knapsack
import Xero.LockIn
import Xero.LockedPool
import Xero.MempoolDeltas
import Xero.MoneySupply
import Xero.Multisig
import Xero.PartialMerkleTree
import Xero.ReplayBlocks
import Xero.RollingBloom
import Xero.ScriptEncoding
import Xero.ScriptLimits
import Xero.ScriptPushes
import Xero.SendQueue
import Xero.SequenceLocks
import Xero.TxRequestRuns
