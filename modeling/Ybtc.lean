import Ybtc.Chain.TreeDB
import Ybtc.Validation.ScriptVerdict
import Ybtc.Validation.AcceptHeader
import Ybtc.Validation.Undo
import Ybtc.Validation.Recovery
import Ybtc.Miner.Refunds
import Ybtc.Evm.RlpCursor
import Ybtc.Evm.TrieIterator
import Ybtc.Evm.Arithmetic
import Ybtc.Evm.JumpTargets
import Ybtc.Evm.DataReads
import Ybtc.Evm.OptimizeSound
import Ybtc.Evm.PlainMap
import Ybtc.Casino.Chronicle
import Ybtc.Miner.MinerLoop
import Ybtc.Casino.Enforcement
import Ybtc.Miner.PackageSelection
import Ybtc.Evm.ExactGas
import Ybtc.Chain.Subsidy
import Ybtc.Wallet.CoinSelection
import Ybtc.Script.MultiSig
import Ybtc.Wallet.StandardOutputs
import Ybtc.Net.CompactBlocks
import Ybtc.Net.BlockRequests
import Ybtc.Net.RollingBloom
import Ybtc.Scheduler.SerialQueue
