import AuthorityBlock.Packer.Packer
import AuthorityBlock.Consensus.Validator

/-! The packer and the consensus compute the same schedule: the packer walks the `Authority`
list with a limit and the consensus filters the whole list in memory, but both keep the first
`max-block-proposers` endorsed candidates, so they build the same scheduler, and a block the
packer plans passes the consensus' proposer checks. -/

namespace AuthorityBlock.Consensus

open Poa

lemma newScheduler_of_packer {nodeMaster : Address} {proposers : List Proposer}
    {header parent : Block.Header} {vip214 : UInt32}
    {seeder : Bytes32 → Except String (List UInt8)} {sched : Scheduler}
    (hparent : header.parentID = parent.id) (hnum : Block.number parent.id = parent.number)
    (h : Packer.newScheduler nodeMaster proposers parent vip214 seeder = .ok sched) :
    newScheduler nodeMaster proposers header parent vip214 seeder = .ok sched := by
  have hn : header.number = parent.number + 1 := by
    rw [Block.Header.number, hparent, hnum]
  unfold newScheduler
  rw [hn, hparent]
  rcases Packer.newScheduler_ok h with ⟨hv, s, hs, rfl⟩ | ⟨hv, seed, s, hseed, hs, rfl⟩
  · rw [if_pos hv, hs]
  · rw [if_neg hv, hseed]
    simp only [hs]

lemma applyUpdates_of_isSome :
    ∀ (a : Authority) (c : Candidates) (updates : List Proposer),
      (∀ u ∈ updates, (c.masters u.address).isSome) →
      ∃ c', applyUpdates a c updates = some (Packer.applyUpdates a updates, c')
  | _, c, [], _ => ⟨c, rfl⟩
  | a, c, u :: us, h => by
    obtain ⟨c', hc', hm⟩ := c.update_of_isSome u.active (h u List.mem_cons_self)
    obtain ⟨c'', hc''⟩ := applyUpdates_of_isSome (a.update u.address u.active).1 c' us
      fun v hv => hm ▸ h v (List.mem_cons_of_mem u hv)
    exact ⟨c'', by rw [applyUpdates, hc']; exact hc''⟩

lemma isTheTime_of_schedule {nodeMaster : Address} {proposers : List Proposer}
    {parent : Block.Header} {vip214 : UInt32} {seeder : Bytes32 → Except String (List UInt8)}
    {sched : Scheduler} {fuel : ℕ} {nowTimestamp t : UInt64}
    (h : Packer.newScheduler nodeMaster proposers parent vip214 seeder = .ok sched)
    (hp : parent.timestamp.toNat + (proposers.length + 1) * 10 < 2 ^ 64)
    (hn : nowTimestamp.toNat + proposers.length * 10 < 2 ^ 64)
    (hw : parent.number + 1 < vip214 →
      (firstSlot parent.timestamp nowTimestamp).toNat + 10 * fuel < 2 ^ 64)
    (ht : sched.schedule fuel nowTimestamp = some t) : sched.isTheTime t := by
  rcases Packer.newScheduler_ok h with ⟨hv, s, hs, rfl⟩ | ⟨-, seed, s, -, hs, rfl⟩
  · obtain ⟨hpt, hmem⟩ := newSchedulerV1_ok hs
    have hlen : 1 ≤ proposers.length := List.length_pos_of_mem (hmem _ s.proposer_mem)
    rw [← hpt] at hp hw
    exact (s.schedule_scheduled (by omega) (by omega) ht (hw hv)).isTheTime_eq
  · obtain ⟨hpt, hlen, -⟩ := newSchedulerV2_ok hs
    rw [← hpt] at hp
    obtain ⟨t', ht', hs'⟩ : ∃ t', s.schedule nowTimestamp = some t' ∧
        Scheduled s.isTheTime s.parentBlockTime nowTimestamp t' :=
      s.schedule_scheduled (by omega) (by omega)
    have : t' = t := Option.some_injective _ (ht'.symm.trans ht)
    exact this ▸ hs'.isTheTime_eq

lemma updates_address_mem {nodeMaster : Address} {proposers : List Proposer}
    {parent : Block.Header} {vip214 : UInt32} {seeder : Bytes32 → Except String (List UInt8)}
    {sched : Scheduler}
    (h : Packer.newScheduler nodeMaster proposers parent vip214 seeder = .ok sched) (t : UInt64) : ∀ u ∈ (sched.updates t).1, u.address ∈ proposers.map Proposer.address := by
  rcases Packer.newScheduler_ok h with ⟨-, s, hs, rfl⟩ | ⟨-, seed, s, -, hs, rfl⟩
  · intro u hu
    obtain ⟨p, hp, hpu⟩ := List.mem_map.mp (s.updates_address_mem t u hu)
    exact hpu ▸ List.mem_map_of_mem ((newSchedulerV1_ok hs).2 p hp)
  · exact fun u hu => (newSchedulerV2_ok hs).2.2 _ (s.updates_address_mem t u hu)

/-- The packer's proposer list is the one the consensus picks, and a block carrying the
packer's plan (its time and total score, signed by the node master) passes `validateProposer`
and leaves the `Authority` contract as the packer left it, while the slots the scheduler tries
stay below `2 ^ 64`. -/
theorem packer_consensus_same_schedule (nodeMaster : Address) (beneficiary : Option Address)
    (vip214 : UInt32) (seeder : Bytes32 → Except String (List UInt8)) (st : StateView)
    (parent header : Block.Header) (nowTimestamp : UInt64) (fuel : ℕ)
    (all : List Authority.Candidate) (hall : st.authority.allCandidates fuel = some all) :
    (st.authority.candidates st.balance st.endorsement
        (maxBlockProposersOf st.maxBlockProposers) fuel).map (·.map proposerOf) =
      some ((newCandidates all).pick st.balance st.endorsement st.maxBlockProposers).2 ∧
    ∀ plan, Packer.schedule nodeMaster beneficiary vip214 seeder st parent nowTimestamp fuel =
        some (.ok plan) →
      header.parentID = parent.id → Block.number parent.id = parent.number →
      header.signer = some nodeMaster → header.timestamp = plan.time →
      header.totalScore = plan.totalScore →
      parent.timestamp.toNat + (all.length + 1) * 10 < 2 ^ 64 →
      nowTimestamp.toNat + all.length * 10 < 2 ^ 64 →
      (parent.number + 1 < vip214 →
        (firstSlot parent.timestamp nowTimestamp).toNat + 10 * fuel < 2 ^ 64) →
      ∃ candidates, validateProposer header parent st none vip214 seeder fuel =
        some (.ok (plan.authority, candidates)) := by
  have hcands := st.authority.candidates_eq_of_allCandidates st.balance st.endorsement
    (maxBlockProposersOf st.maxBlockProposers) hall
  have hpick := Candidates.pick_newCandidates all st.balance st.endorsement st.maxBlockProposers
  refine ⟨by rw [hcands, hpick]; rfl, ?_⟩
  intro plan hplan hparent hnum hsigner htime hscore hp hn hw
  obtain ⟨cands, sched, hc, hsched, ht, htotal, hauth⟩ := Packer.schedule_ok hplan
  obtain rfl := Option.some_injective _ (hcands.symm.trans hc)
  -- the packer's proposers are a prefix of the endorsed part of the whole list
  have hsub : ∀ c ∈ (all.filter fun c => decide (st.balance c.endorsor ≥ st.endorsement)).take
      (maxBlockProposersOf st.maxBlockProposers).toNat, c ∈ all :=
    fun c hc => List.mem_of_mem_filter (List.mem_of_mem_take hc)
  have hlen : ((all.filter fun c => decide (st.balance c.endorsor ≥ st.endorsement)).take
      (maxBlockProposersOf st.maxBlockProposers).toNat).length ≤ all.length :=
    (List.length_take_le' _ _).trans (List.length_filter_le _ _)
  have hmasters : ∀ u ∈ (sched.updates plan.time).1, (((newCandidates all).pick st.balance
      st.endorsement st.maxBlockProposers).1.masters u.address).isSome := by
    intro u hu
    rw [Candidates.pick_masters]
    obtain ⟨p, hp, hpu⟩ := List.mem_map.mp (updates_address_mem hsched plan.time u hu)
    obtain ⟨c, hc, rfl⟩ := List.mem_map.mp hp
    exact Candidates.isSome_masters_newCandidates (List.mem_map.mpr ⟨c, hsub c hc, hpu⟩)
  obtain ⟨c', hc'⟩ := applyUpdates_of_isSome st.authority _ _ hmasters
  -- the consensus builds the packer's scheduler, which accepts the packer's slot
  have hsched' : newScheduler nodeMaster ((newCandidates all).pick st.balance st.endorsement
      st.maxBlockProposers).2 header parent vip214 seeder = .ok sched := by
    rw [hpick]
    exact newScheduler_of_packer hparent hnum hsched
  have htime' : sched.isTheTime header.timestamp := by
    rw [htime]
    exact isTheTime_of_schedule hsched (by simp only [List.length_map]; omega)
      (by simp only [List.length_map]; omega) hw ht
  refine ⟨c', validateProposer_eq_ok hsigner hall hsched' htime' ?_ ?_⟩
  · rw [htime, hscore, htotal]
  · rw [htime, hauth]
    exact hc'

/-- The `Authority` list of the four worked proposers: the candidates `1` to `4` in order, the
third inactive, each endorsed by the address `0x10` above its own. -/
def sampleAuthority : Authority :=
  ⟨fun m =>
    if m = sampleAddress 1 then
      ⟨sampleAddress 0x11, Bytes32.zero, true, none, some (sampleAddress 2)⟩
    else if m = sampleAddress 2 then
      ⟨sampleAddress 0x12, Bytes32.zero, true, some (sampleAddress 1), some (sampleAddress 3)⟩
    else if m = sampleAddress 3 then
      ⟨sampleAddress 0x13, Bytes32.zero, false, some (sampleAddress 2), some (sampleAddress 4)⟩
    else if m = sampleAddress 4 then
      ⟨sampleAddress 0x14, Bytes32.zero, true, some (sampleAddress 3), none⟩
    else Authority.Entry.empty,
    some (sampleAddress 1), some (sampleAddress 4)⟩

/-- The state of the worked case: the second candidate's endorsor holds less than the
endorsement of 50, and the max-block-proposers parameter is unset. -/
def sampleState : StateView :=
  ⟨sampleAuthority, fun e => if e = sampleAddress 0x12 then 10 else 100, 50, 0⟩

/-- Block 5, at time 1000 with total score 20. -/
def sampleParent : Block.Header :=
  ⟨⟨[0, 0, 0, 5] ++ List.replicate 28 0, by simp⟩, ⟨[0, 0, 0, 4] ++ List.replicate 28 0, by simp⟩,
    1000, 20, some (sampleAddress 1)⟩

/-- The inactive third candidate packs on block 5 at 1040 with score 21 under the first
scheduler, and its block passes `validateProposer`. -/
theorem packer_consensus_same_schedule_four_candidates :
    (sampleAuthority.candidates sampleState.balance 50 (maxBlockProposersOf 0) 8).map
        (·.map proposerOf) =
      some ((newCandidates [⟨sampleAddress 1, sampleAddress 0x11, Bytes32.zero, true⟩,
        ⟨sampleAddress 2, sampleAddress 0x12, Bytes32.zero, true⟩,
        ⟨sampleAddress 3, sampleAddress 0x13, Bytes32.zero, false⟩,
        ⟨sampleAddress 4, sampleAddress 0x14, Bytes32.zero, true⟩]).pick
          sampleState.balance 50 0).2 ∧
    ∃ plan, Packer.schedule (sampleAddress 3) none 100 (fun _ => .ok []) sampleState sampleParent
        1025 8 = some (.ok plan) ∧ plan.time = 1040 ∧ plan.totalScore = 21 ∧
      ∃ candidates, validateProposer
        ⟨Bytes32.zero, sampleParent.id, 1040, 21, some (sampleAddress 3)⟩ sampleParent
        sampleState none 100 (fun _ => .ok []) 8 = some (.ok (plan.authority, candidates)) := by
  have hall : sampleState.authority.allCandidates 8 =
      some [⟨sampleAddress 1, sampleAddress 0x11, Bytes32.zero, true⟩,
        ⟨sampleAddress 2, sampleAddress 0x12, Bytes32.zero, true⟩,
        ⟨sampleAddress 3, sampleAddress 0x13, Bytes32.zero, false⟩,
        ⟨sampleAddress 4, sampleAddress 0x14, Bytes32.zero, true⟩] := by decide +kernel
  obtain ⟨hlists, hvalid⟩ := packer_consensus_same_schedule (sampleAddress 3) none 100
    (fun _ => .ok []) sampleState sampleParent
    ⟨Bytes32.zero, sampleParent.id, 1040, 21, some (sampleAddress 3)⟩ 1025 8 _ hall
  have hplan : (Packer.schedule (sampleAddress 3) none 100 (fun _ => .ok []) sampleState
      sampleParent 1025 8).map (fun r => r.toOption.map fun plan => (plan.time, plan.totalScore)) =
      some (some (1040, 21)) := by decide +kernel
  obtain ⟨plan, hp, htime, hscore⟩ : ∃ plan, Packer.schedule (sampleAddress 3) none 100
      (fun _ => .ok []) sampleState sampleParent 1025 8 = some (.ok plan) ∧
      plan.time = 1040 ∧ plan.totalScore = 21 := by
    rcases h : Packer.schedule (sampleAddress 3) none 100 (fun _ => .ok []) sampleState
      sampleParent 1025 8 with _ | _ | plan
    all_goals rw [h] at hplan
    · cases hplan
    · cases hplan
    · simp only [Option.map_some, Except.toOption, Option.some.injEq, Prod.mk.injEq] at hplan
      exact ⟨plan, rfl, hplan⟩
  exact ⟨hlists, plan, hp, htime, hscore, hvalid plan hp rfl (by decide) rfl htime.symm
    hscore.symm (by decide) (by decide) fun _ => by decide⟩

/-- Without the bound, the packer's slot can wrap past `2 ^ 64`: with the parent 5 s before
`2 ^ 64`, a single proposer and the first scheduler, the packer plans its block at time `5`
with score `1`, and `validateProposer` rejects that block as unscheduled. -/
theorem packer_block_time_wraps_unscheduled :
    (Packer.schedule Address.zero none 100 (fun _ => .ok [])
        ⟨⟨fun _ => ⟨Address.zero, Bytes32.zero, true, none, none⟩, some Address.zero,
          some Address.zero⟩, fun _ => 0, 0, 0⟩
        ⟨⟨[0, 0, 0, 1] ++ List.replicate 28 0, rfl⟩, Bytes32.zero, 18446744073709551611, 0, none⟩
        0 2).map (fun r => r.toOption.map fun plan => (plan.time, plan.totalScore)) =
      some (some (5, 1)) ∧
    (validateProposer
        ⟨Bytes32.zero, ⟨[0, 0, 0, 1] ++ List.replicate 28 0, rfl⟩, 5, 1, some Address.zero⟩
        ⟨⟨[0, 0, 0, 1] ++ List.replicate 28 0, rfl⟩, Bytes32.zero, 18446744073709551611, 0, none⟩
        ⟨⟨fun _ => ⟨Address.zero, Bytes32.zero, true, none, none⟩, some Address.zero,
          some Address.zero⟩, fun _ => 0, 0, 0⟩
        none 100 (fun _ => .ok []) 2).map (fun r => r.map fun _ => ()) =
      some (.error (.timestampUnscheduled 5 Address.zero)) := by
  constructor
  · decide +kernel
  · decide +kernel

end AuthorityBlock.Consensus
