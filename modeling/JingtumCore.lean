import JingtumCore.ECDSACanonical
import JingtumCore.MasterSign
import JingtumCore.Replay
import JingtumCore.Malformed
import JingtumCore.CloseTimeVotes
import JingtumCore.PeerPositions
import JingtumCore.CurrentValidations
import JingtumCore.ConsensusQuorum
import JingtumCore.LastClosedLedger
import JingtumCore.ConsensusDisputes
import JingtumCore.AcceptTimes
import JingtumCore.LedgerMaster
import JingtumCore.SignatureVerdicts
import JingtumCore.PathSets
import JingtumCore.VariableLengths
import JingtumCore.EmptyDirectories
import JingtumCore.LineReserves
import JingtumCore.BoundedIteration
import JingtumCore.SyncedTrees
import JingtumCore.SnapshotIsolation
import JingtumCore.AmendmentMajorities
import JingtumCore.DirectedRounding
import JingtumCore.BookRates
import JingtumCore.AccountFlags
import JingtumCore.PreCheckGuards
import JingtumCore.CurrencyText
import JingtumCore.NodeFormats
import JingtumCore.LedgerMismatches
import JingtumCore.RotatingBackends
import JingtumCore.NodeCaches
import JingtumCore.NodeCodec
import JingtumCore.DecayingSamples
import JingtumCore.LoadFees
import JingtumCore.PeerSlots
