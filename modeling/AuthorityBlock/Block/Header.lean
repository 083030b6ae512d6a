import AuthorityBlock.Ablock.Types
import AuthorityBlock.Lib.ByteOrder

/-! The parts of `block.Header` the proposer checks read. A block ID is the header's hash with
its first four bytes overwritten by the block number. -/

namespace AuthorityBlock.Block

/-- `block.Number`: the number a block ID carries in its first four bytes. -/
def number (blockID : Bytes32) : UInt32 := ByteOrder.uint32BE blockID.bytes

/-- `id` is the header's ID and `signer` what its signature recovers to, `none` when it does
not recover. -/
structure Header where
  id : Bytes32
  parentID : Bytes32
  timestamp : UInt64
  totalScore : UInt64
  signer : Option Address

/-- `Number`, inferred from the parent ID. -/
def Header.number (h : Header) : UInt32 := Block.number h.parentID + 1

end AuthorityBlock.Block
