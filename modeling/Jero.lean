import Jero.Fcmp.Rebuild
import Jero.Chain.Switch
import Jero.Chain.Enforce
import Jero.Chain.ReturnTxs
import Jero.Chain.CheckHash
import Jero.Chain.ShortHistory
import Jero.Crypto.TreeHash
import Jero.Chain.PrevalidateSound
import Jero.Common.Base58
import Jero.Chain.NextDifficulty
import Jero.Forks.Popped
import Jero.Serial.Weight
import Jero.Chain.VerificationId
import Jero.Epee.StorageRoundTrip
import Jero.Ringct.Balance
import Jero.Ringct.BulletproofComplete
import Jero.Ringct.RingSignature
import Jero.Protocol.QueueRuns
import Jero.Chain.Fees
import Jero.TxPool.TemplateTotals
import Jero.Chain.AltCoins
import Jero.Chain.Recalculate
import Jero.Mnemonics.Faithful
import Jero.TxPool.Incremental
import Jero.Levin.Packets
import Jero.Db.Cumulative
import Jero.Protocol.Pruning
import Jero.Common.Amount
import Jero.Chain.RandomxSeed
import Jero.Ringct.BosCoster
import Jero.Chain.LooseTemplate
import Jero.Wallet.RestoreHeight
import Jero.TxPool.PruneOrder
import Jero.Common.ApplyPermutation
import Jero.Epee.Hex
import Jero.Crypto.ScalarCheck
import Jero.Common.Combinator
