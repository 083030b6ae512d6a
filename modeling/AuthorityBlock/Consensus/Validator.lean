import AuthorityBlock.Poa.Scheduler
import AuthorityBlock.Block.Header

/-! The model of `Consensus.validateProposer` in `consensus/validator.go`: the signer must be
scheduled at the header's time, the header's total score must add the scheduler's score, and
the scheduler's updates are applied to the `Authority` contract and the candidate list. -/

namespace AuthorityBlock.Consensus

open Poa

/-- The errors of `validateProposer`, with the values their messages print. -/
inductive ProposerError
  /-- "block signer unavailable: ..." -/
  | signerUnavailable
  /-- "block signer invalid: signer err" -/
  | signerInvalid (signer : Address) (err : String)
  /-- "block timestamp unscheduled: t ..., s ..." -/
  | timestampUnscheduled (t : UInt64) (signer : Address)
  /-- "block total score invalid: want ..., have ..." -/
  | totalScoreInvalid (want actual : UInt64)
  /-- an error of the seeder, returned as it is -/
  | seeder (err : String)
deriving DecidableEq

def newScheduler (signer : Address) (proposers : List Proposer) (header parent : Block.Header)
    (vip214 : UInt32) (seeder : Bytes32 → Except String (List UInt8)) :
    Except ProposerError Scheduler :=
  if header.number < vip214 then
    match newSchedulerV1 signer proposers parent.number parent.timestamp with
    | .ok s => .ok (.v1 s)
    | .error err => .error (.signerInvalid signer err)
  else
    match seeder header.parentID with
    | .error err => .error (.seeder err)
    | .ok seed =>
      match newSchedulerV2 signer proposers parent.number parent.timestamp seed with
      | .ok s => .ok (.v2 s)
      | .error err => .error (.signerInvalid signer err)

/-- The loop applying `updates` to the contract and to the candidate list; a master missing
from the list is the `panic`. -/
def applyUpdates : Authority → Candidates → List Proposer → Option (Authority × Candidates)
  | a, c, [] => some (a, c)
  | a, c, u :: us =>
    match c.update u.address u.active with
    | (c', true) => applyUpdates (a.update u.address u.active).1 c' us
    | (_, false) => none

/-- `validateProposer` on the state at `parent`; `cached` is the candidate list cached for the
parent, if any. `none` where a loop has not ended within `fuel` steps or the code panics. -/
def validateProposer (header parent : Block.Header) (st : StateView) (cached : Option Candidates)
    (vip214 : UInt32) (seeder : Bytes32 → Except String (List UInt8)) (fuel : ℕ) :
    Option (Except ProposerError (Authority × Candidates)) :=
  match header.signer with
  | none => some (.error .signerUnavailable)
  | some signer =>
    let candidates := match cached with
      | some c => some c.copy
      | none => (st.authority.allCandidates fuel).map newCandidates
    candidates.bind fun candidates =>
      let (candidates, proposers) :=
        candidates.pick st.balance st.endorsement st.maxBlockProposers
      match newScheduler signer proposers header parent vip214 seeder with
      | .error e => some (.error e)
      | .ok sched =>
        if !sched.isTheTime header.timestamp then
          some (.error (.timestampUnscheduled header.timestamp signer))
        else
          let (updates, score) := sched.updates header.timestamp
          if parent.totalScore + score ≠ header.totalScore then
            some (.error (.totalScoreInvalid (parent.totalScore + score) header.totalScore))
          else (applyUpdates st.authority candidates updates).map .ok

lemma validateProposer_eq_ok {header parent : Block.Header} {st : StateView} {vip214 : UInt32}
    {seeder : Bytes32 → Except String (List UInt8)} {fuel : ℕ} {signer : Address}
    {all : List Authority.Candidate} {sched : Scheduler} {r : Authority × Candidates}
    (hsigner : header.signer = some signer) (hall : st.authority.allCandidates fuel = some all)
    (hsched : newScheduler signer ((newCandidates all).pick st.balance st.endorsement
      st.maxBlockProposers).2 header parent vip214 seeder = .ok sched)
    (htime : sched.isTheTime header.timestamp)
    (hscore : parent.totalScore + (sched.updates header.timestamp).2 = header.totalScore)
    (happly : applyUpdates st.authority ((newCandidates all).pick st.balance st.endorsement
      st.maxBlockProposers).1 (sched.updates header.timestamp).1 = some r) :
    validateProposer header parent st none vip214 seeder fuel = some (.ok r) := by
  simp only [validateProposer, hsigner, hall, Option.map_some, Option.bind_some]
  rw [hsched]
  simp [htime, hscore, happly]

lemma validateProposer_eq_ok_inv {header parent : Block.Header} {st : StateView}
    {cached : Option Candidates} {vip214 : UInt32} {seeder : Bytes32 → Except String (List UInt8)}
    {fuel : ℕ} {r : Authority × Candidates}
    (h : validateProposer header parent st cached vip214 seeder fuel = some (.ok r)) :
    ∃ signer c sched, header.signer = some signer ∧
      (match cached with
        | some c' => some c'.copy
        | none => (st.authority.allCandidates fuel).map newCandidates) = some c ∧
      newScheduler signer (c.pick st.balance st.endorsement st.maxBlockProposers).2 header parent
        vip214 seeder = .ok sched ∧
      sched.isTheTime header.timestamp ∧
      applyUpdates st.authority (c.pick st.balance st.endorsement st.maxBlockProposers).1
        (sched.updates header.timestamp).1 = some r := by
  unfold validateProposer at h
  split at h
  · cases h
  · rename_i signer hsigner
    obtain ⟨c, hc, h⟩ := Option.bind_eq_some_iff.mp h
    dsimp only at h
    split at h
    · cases h
    · rename_i sched hsched
      split_ifs at h with htime hscore
      · cases h
      · cases h
      obtain ⟨r', hr', hr⟩ := Option.map_eq_some_iff.mp h
      cases hr
      exact ⟨signer, c, sched, hsigner, hc, hsched, by simpa using htime, hr'⟩

end AuthorityBlock.Consensus
