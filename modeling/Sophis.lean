import Sophis.Emission
import Sophis.AltHistory
import Sophis.ContractAvailability
import Sophis.IdentifierIndependence
import Sophis.ContractOutputs
import Sophis.DiffRefinement
import Sophis.FilterHeaders
import Sophis.GhostdagAgreement
import Sophis.NodeAgreement
import Sophis.MultisetPruning
import Sophis.SignatureReuse
import Sophis.SigOpBound
import Sophis.EventBuckets
import Sophis.CarrierBundles
import Sophis.PruningPoints
import Sophis.BlockWindow
import Sophis.BlueCluster
import Sophis.RollupConservation
import Sophis.SequencerLoop
import Sophis.Addresses
import Sophis.DepthPoints
import Sophis.DifficultyRetarget
import Sophis.BundleCodec
import Sophis.FilterMatching
import Sophis.CoinbasePayload
import Sophis.DescriptorChecksum
import Sophis.OracleCircuit
import Sophis.FeedSource
