import AuthorityBlock.Lib.LastWrite
import AuthorityBlock.Lib.ByteOrder
import AuthorityBlock.Lib.Blake2b
import AuthorityBlock.Ablock.Types
import AuthorityBlock.StackedMap.Basic
import AuthorityBlock.StackedMap.Invariant
import AuthorityBlock.Lib.Grid
import AuthorityBlock.Poa.Sched
import AuthorityBlock.Poa.SchedV2
import AuthorityBlock.Builtin.Authority
import AuthorityBlock.Poa.Candidates
import AuthorityBlock.Block.Header
import AuthorityBlock.Consensus.Validator
import AuthorityBlock.Packer.Packer
import AuthorityBlock.Consensus.Agreement
import AuthorityBlock.Lib.Rlp
import AuthorityBlock.State.Account
import AuthorityBlock.State.State
import AuthorityBlock.State.Reference
import AuthorityBlock.State.Journal
import AuthorityBlock.State.Spec
import AuthorityBlock.State.Refinement
import AuthorityBlock.Runtime.Callbacks
import AuthorityBlock.State.Stage
import AuthorityBlock.State.Consistent
import AuthorityBlock.State.Replay
import AuthorityBlock.State.Reload
import AuthorityBlock.Builtin.AuthorityList
import AuthorityBlock.Poa.Updates
import AuthorityBlock.Chain.Index
import AuthorityBlock.Lib.CountMap
import AuthorityBlock.Txpool.TxObjectMap
import AuthorityBlock.Chain.BlockReader
import AuthorityBlock.Block.Codec
import AuthorityBlock.Consensus.Cache
import AuthorityBlock.Tx.Clause
import AuthorityBlock.Tx.Reserved
import AuthorityBlock.Bft.Justifier
import AuthorityBlock.Chain.Exclude
import AuthorityBlock.Chain.Timestamp
import AuthorityBlock.Lib.PrefixCode
import AuthorityBlock.Muxdb.Cache
import AuthorityBlock.Builtin.Prototype
import AuthorityBlock.Comm.Sync
import AuthorityBlock.Logdb.Sequence
import AuthorityBlock.Tx.Price
import AuthorityBlock.Bloom.Filter
import AuthorityBlock.Bloom.Legacy
import AuthorityBlock.Cache.Entry
import AuthorityBlock.Cache.Prio
import AuthorityBlock.Cache.Rand
import AuthorityBlock.Builtin.Natives
import AuthorityBlock.Packer.Flow
import AuthorityBlock.Consensus.Verify
import AuthorityBlock.Txpool.Wash
import AuthorityBlock.Consensus.Replay
import AuthorityBlock.Bft.Engine
import AuthorityBlock.Bft.Repository
