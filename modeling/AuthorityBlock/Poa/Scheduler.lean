import AuthorityBlock.Poa.SchedV2
import AuthorityBlock.Poa.Candidates

/-! The `Scheduler` interface of `poa/sched.go`, implemented by both schedulers, and what
the packer and the consensus read from the state at the parent to build one. -/

namespace AuthorityBlock.Poa

inductive Scheduler
  | v1 (s : SchedulerV1)
  | v2 (s : SchedulerV2)

namespace Scheduler

/-- `Schedule`; `none` where the first scheduler has not returned within `fuel` slots or the
second one panics. -/
def schedule (fuel : ℕ) (nowTime : UInt64) : Scheduler → Option UInt64
  | v1 s => s.schedule fuel nowTime
  | v2 s => s.schedule nowTime

def isTheTime (newBlockTime : UInt64) : Scheduler → Bool
  | v1 s => s.isTheTime newBlockTime
  | v2 s => s.isTheTime newBlockTime

def updates (newBlockTime : UInt64) : Scheduler → List Proposer × UInt64
  | v1 s => s.updates newBlockTime
  | v2 s => s.updates newBlockTime

def parentBlockTime : Scheduler → UInt64
  | v1 s => s.parentBlockTime
  | v2 s => s.parentBlockTime

end Scheduler

/-- What `Packer.Schedule` and `validateProposer` read from the state at the parent: the
`Authority` contract's list, balances, and the `proposer-endorsement` and
`max-block-proposers` params. -/
structure StateView where
  authority : Authority
  balance : Address → ℕ
  endorsement : ℕ
  maxBlockProposers : ℕ

end AuthorityBlock.Poa
