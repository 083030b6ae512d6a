import AuthorityBlock.Poa.Scheduler
import AuthorityBlock.Block.Header
import AuthorityBlock.Block.GasLimit

/-! The model of `Packer.Schedule` in `packer/packer.go`: the proposer list, the block time,
the score and the `Authority` updates of the block the node is to pack on a parent. The gas
limit and the transaction features of the new flow are left out. -/

namespace AuthorityBlock.Packer

open Poa

/-- The block context the new flow is given, and the `Authority` it leaves in the state. -/
structure Plan where
  beneficiary : Address
  signer : Address
  number : UInt32
  time : UInt64
  totalScore : UInt64
  authority : Authority

/-- The scheduler `Schedule` builds for `parent`: the second one from `VIP214` on. -/
def newScheduler (nodeMaster : Address) (proposers : List Proposer) (parent : Block.Header)
    (vip214 : UInt32) (seeder : Bytes32 → Except String (List UInt8)) :
    Except String Scheduler :=
  if parent.number + 1 < vip214 then
    (newSchedulerV1 nodeMaster proposers parent.number parent.timestamp).map .v1
  else do
    let seed ← seeder parent.id
    (newSchedulerV2 nodeMaster proposers parent.number parent.timestamp seed).map .v2

lemma newScheduler_ok {nodeMaster : Address} {proposers : List Proposer} {parent : Block.Header}
    {vip214 : UInt32} {seeder : Bytes32 → Except String (List UInt8)} {sched : Scheduler}
    (h : newScheduler nodeMaster proposers parent vip214 seeder = .ok sched) :
    (parent.number + 1 < vip214 ∧ ∃ s, newSchedulerV1 nodeMaster proposers parent.number
      parent.timestamp = .ok s ∧ sched = .v1 s) ∨
    (¬ parent.number + 1 < vip214 ∧ ∃ seed s, seeder parent.id = .ok seed ∧
      newSchedulerV2 nodeMaster proposers parent.number parent.timestamp seed = .ok s ∧
      sched = .v2 s) := by
  unfold newScheduler at h
  split_ifs at h with hv
  · refine .inl ⟨hv, ?_⟩
    cases hs : newSchedulerV1 nodeMaster proposers parent.number parent.timestamp with
    | error e =>
      rw [hs] at h
      cases h
    | ok s =>
      rw [hs] at h
      cases h
      exact ⟨s, rfl, rfl⟩
  · refine .inr ⟨hv, ?_⟩
    cases hseed : seeder parent.id with
    | error e =>
      rw [hseed] at h
      cases h
    | ok seed =>
      rw [hseed] at h
      change (newSchedulerV2 nodeMaster proposers parent.number parent.timestamp seed).map
        Scheduler.v2 = .ok sched at h
      cases hs : newSchedulerV2 nodeMaster proposers parent.number parent.timestamp seed with
      | error e =>
        rw [hs] at h
        cases h
      | ok s =>
        rw [hs] at h
        cases h
        exact ⟨seed, s, rfl, hs, rfl⟩

/-- The loop applying `updates`; `Update`'s result is not checked. -/
def applyUpdates (a : Authority) (updates : List Proposer) : Authority :=
  updates.foldl (fun a u => (a.update u.address u.active).1) a

/-- `Schedule`; `none` where a loop has not ended within `fuel` steps or a scheduler panics.
Without a configured beneficiary, the endorsor of the node master is the beneficiary. -/
def schedule (nodeMaster : Address) (beneficiary : Option Address) (vip214 : UInt32)
    (seeder : Bytes32 → Except String (List UInt8)) (st : StateView) (parent : Block.Header)
    (nowTimestamp : UInt64) (fuel : ℕ) : Option (Except String Plan) :=
  (st.authority.candidates st.balance st.endorsement
      (maxBlockProposersOf st.maxBlockProposers) fuel).bind fun candidates =>
    let proposers := candidates.map proposerOf
    let beneficiary := beneficiary.getD
      (((candidates.filter fun c => c.nodeMaster = nodeMaster).getLast?.map
        Authority.Candidate.endorsor).getD Address.zero)
    match newScheduler nodeMaster proposers parent vip214 seeder with
    | .error err => some (.error err)
    | .ok sched =>
      (sched.schedule fuel nowTimestamp).map fun newBlockTime =>
        let (updates, score) := sched.updates newBlockTime
        .ok ⟨beneficiary, nodeMaster, parent.number + 1, newBlockTime,
          parent.totalScore + score, applyUpdates st.authority updates⟩

lemma schedule_ok {nodeMaster : Address} {beneficiary : Option Address} {vip214 : UInt32}
    {seeder : Bytes32 → Except String (List UInt8)} {st : StateView} {parent : Block.Header}
    {nowTimestamp : UInt64} {fuel : ℕ} {plan : Plan}
    (h : schedule nodeMaster beneficiary vip214 seeder st parent nowTimestamp fuel =
      some (.ok plan)) :
    ∃ candidates sched,
      st.authority.candidates st.balance st.endorsement
        (maxBlockProposersOf st.maxBlockProposers) fuel = some candidates ∧
      newScheduler nodeMaster (candidates.map proposerOf) parent vip214 seeder = .ok sched ∧
      sched.schedule fuel nowTimestamp = some plan.time ∧
      plan.totalScore = parent.totalScore + (sched.updates plan.time).2 ∧
      plan.authority = applyUpdates st.authority (sched.updates plan.time).1 := by
  obtain ⟨candidates, hc, h⟩ := Option.bind_eq_some_iff.mp h
  refine ⟨candidates, ?_⟩
  dsimp only at h
  split at h
  · cases h
  · rename_i sched hsched
    obtain ⟨t, ht, hplan⟩ := Option.map_eq_some_iff.mp h
    rcases hu : sched.updates t with ⟨updates, score⟩
    rw [hu] at hplan
    cases hplan
    exact ⟨sched, hc, hsched, ht, by rw [hu], by rw [hu]⟩

/-- `Packer.gasLimit`: the parent's gas limit, or `Qualify` of the target when one is set. -/
def gasLimit (targetGasLimit parentGasLimit : UInt64) : UInt64 :=
  if targetGasLimit ≠ 0 then Block.GasLimit.qualify targetGasLimit parentGasLimit
  else parentGasLimit

lemma isValid_gasLimit (targetGasLimit : UInt64) {parentGasLimit : UInt64}
    (hp : MinGasLimit ≤ parentGasLimit) :
    Block.GasLimit.isValid (gasLimit targetGasLimit parentGasLimit) parentGasLimit = true := by
  unfold gasLimit
  split_ifs
  · rw [Block.isValid_iff, Block.qualify_eq_clamp _ _ hp]
    have hwin : Block.lowerBound parentGasLimit ≤ Block.upperBound parentGasLimit := by
      have hlt := parentGasLimit.toNat_lt
      rw [UInt64.le_iff_toNat_le, Block.minGasLimit_toNat] at hp
      unfold Block.lowerBound Block.upperBound
      rw [Block.minGasLimit_toNat]
      omega
    omega
  · rw [Block.isValid_iff]
    have hlt := parentGasLimit.toNat_lt
    rw [UInt64.le_iff_toNat_le, Block.minGasLimit_toNat] at hp
    unfold Block.lowerBound Block.upperBound
    rw [Block.minGasLimit_toNat]
    omega

end AuthorityBlock.Packer
