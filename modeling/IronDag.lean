import IronDag.Consensus.Rebuild
import IronDag.Chain.HashCommitment
import IronDag.Mining.AuthorisedRun
import IronDag.Mining.Replication
import IronDag.Consensus.Restart
import IronDag.Mining.ExecutedOnce
import IronDag.Mining.Heights
import IronDag.Mining.Coherence
import IronDag.Mining.StorageModes
import IronDag.Mining.CleanResync
import IronDag.Chain.TransactionIdentity
import IronDag.Mining.PoolSolvency
import IronDag.Mining.SponsorConsent
import IronDag.Mining.Allocator
import IronDag.Mining.Drained
import IronDag.Sharding.CreditedOnce
import IronDag.Sharding.ValueConserved
import IronDag.Evm.Serialisable
import IronDag.Storage.Restored
import IronDag.Storage.Records
import IronDag.Storage.RangeReads
import IronDag.Network.Censorship
import IronDag.Network.ResyncQuorum
import IronDag.Network.OutOfOrder
import IronDag.Network.PeerAccounting
import IronDag.Network.Understood
import IronDag.Chain.ZkEnforcement
import IronDag.Chain.EcdsaRecovery
import IronDag.Consensus.HotCache
import IronDag.Consensus.AgePruning
import IronDag.Chain.Genesis
import IronDag.Mining.Emission
import IronDag.Mining.MineBlock
import IronDag.Mining.StreamProof
import IronDag.Network.Difficulty
import IronDag.Verkle.Kzg
import IronDag.Account.Multisig
import IronDag.Chain.XorBytes
import IronDag.Governance.Registry
import IronDag.Zk.PathGadget
