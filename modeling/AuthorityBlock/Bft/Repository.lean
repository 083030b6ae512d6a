import AuthorityBlock.Bft.Engine
import AuthorityBlock.Chain.Timestamp
import Mathlib

/-! The engine over the repository of `chain/repository.go`: `GetBlockSummary(id)` and
`NewChain(headID).GetBlockSummary(num)` are read from the repository model, and the engine's
header is taken from the chain's. On a repository that `NewRepository` and `AddBlock` built,
every block is stored under its own ID and the chain of a block holds below it what the chain of
its parent holds, so the engine's reads are those of one chain (`Reads.env_consistent`). Every
call of `computeState` on a stored block then returns the fresh state, whatever the calls
before it and whatever the caches evicted, and past the fork that state summarizes the votes of
exactly the blocks of the block's round on its own chain (`computeState_round_votes`). -/

namespace AuthorityBlock.Chain

variable {r : Repository} {a h : Bytes32} {s : BlockSummary}

lemma number_ne_zero_of_lt {k : UInt32} (hk : k < Block.number h) : Block.number h ≠ 0 := by
  rintro h0
  rw [h0] at hk
  exact UInt32.not_lt_zero hk

lemma Ancestor.eq_or_parent (ha : Ancestor r a h) (hs : r.data.lookup h = some s) :
    a = h ∨ Ancestor r a s.header.parentID := by
  cases ha with
  | self _ => exact .inl rfl
  | parent hs' _ hpa =>
    rw [hs] at hs'
    obtain rfl := Option.some.inj hs'
    exact .inr hpa

/-- The run rule for keys: a built repository stores each block under its own ID. -/
lemma Built.id_eq (hr : Built r) : ∀ id s, r.data.lookup id = some s → s.header.id = id := by
  induction hr with
  | @genesis genesis _ hnum h =>
    obtain ⟨-, -, hdata, -⟩ := newRepository_stores hnum h
    intro id s hs
    rw [hdata] at hs
    by_cases hid : id = genesis.header.id
    · subst hid
      rw [AList.lookup_insert, Option.some_inj] at hs
      rw [← hs]
    · rw [AList.lookup_insert_ne hid] at hs
      cases hs
  | addBlock _ hfresh _ hadd ih =>
    intro id s hs
    rcases lookup_insert_cases hfresh (addBlock_data hadd) hs with ⟨rfl, rfl⟩ | ⟨-, hs⟩
    · rfl
    · exact ih id s hs

lemma Indexed.getBlockID_parent (hi : Indexed r) (hs : r.data.lookup h = some s) {k : UInt32}
    (hk : k < Block.number h) :
    (r.newChain h).getBlockID k = (r.newChain s.header.parentID).getBlockID k := by
  have h0 : Block.number h ≠ 0 := number_ne_zero_of_lt hk
  obtain ⟨sp, hsp⟩ := Option.isSome_iff_exists.mp (hi.parent h s hs h0)
  obtain ⟨t, hT, hget, -⟩ := hi.read hs
  obtain ⟨t', hT', hget', -⟩ := hi.read hsp
  -- the two versions of the index agree below the block
  have ht : t k = t' k := by
    refine Option.ext fun a => ?_
    rw [hT, hT']
    constructor
    · rintro ⟨ha, rfl⟩
      rcases ha.eq_or_parent hs with rfl | hpa
      · exact absurd hk (UInt32.lt_irrefl _)
      · exact ⟨hpa, rfl⟩
    · rintro ⟨ha, rfl⟩
      exact ⟨.parent hs h0 ha, rfl⟩
  rw [hget, hget', ht]

end AuthorityBlock.Chain

namespace AuthorityBlock.Bft

open Chain BFTEngine
open Block (Header)

/-- The text of a repository error as the engine passes it on. -/
def chainErrorText : ChainError → String
  | .notFound | .lazyInit => "not found"
  | .parentMissing => "parent missing"
  | .missingNode _ => "missing trie node"
  | .genesis msg => msg

/-- What the engine reads beside the repository: the fork number, the `COM()` flag of each
block's header, which the chain model does not hold, the parameter in each block's state, and
the qualities the engine stored. -/
structure Reads where
  FINALITY : UInt32
  com : Bytes32 → Bool
  MaxBlockProposers : Bytes32 → Except String ℕ
  getQuality : Bytes32 → Except String UInt32

namespace Reads

variable (rd : Reads)

/-- The engine's header of a chain's header: `signer, _ := h.Signer()` is the zero address where
the signature does not recover. -/
def header (h : Header) : BftHeader :=
  ⟨h.id, h.parentID, h.signer.getD Address.zero, rd.com h.id, h.totalScore⟩

/-- The engine's reads of a repository. -/
def env (r : Repository) : Env where
  FINALITY := rd.FINALITY
  getBlockSummary id := ((r.getBlockSummary id).map (rd.header ·.header)).mapError chainErrorText
  getChainSummary headID num :=
    (((r.newChain headID).getBlockSummary num).map (rd.header ·.header)).mapError chainErrorText
  MaxBlockProposers := rd.MaxBlockProposers
  getQuality := rd.getQuality

variable {rd} {r : Repository} {id : Bytes32} {s : BlockSummary}

lemma env_getBlockSummary_eq_ok {hdr : BftHeader} :
    (rd.env r).getBlockSummary id = .ok hdr ↔
      ∃ s, r.data.lookup id = some s ∧ hdr = rd.header s.header := by
  simp only [env, Repository.getBlockSummary]
  cases r.data.lookup id with
  | none => simp [Except.map, Except.mapError]
  | some s => simp [Except.map, Except.mapError, eq_comm]

lemma env_getBlockSummary_header (hid : ∀ id s, r.data.lookup id = some s → s.header.id = id)
    (hs : r.data.lookup id = some s) :
    (rd.env r).getBlockSummary (rd.header s.header).ID = .ok (rd.header s.header) := by
  have hID : (rd.header s.header).ID = id := hid id s hs
  rw [hID, env_getBlockSummary_eq_ok]
  exact ⟨s, hs, rfl⟩

lemma header_number (hi : Indexed r) (hs : r.data.lookup id = some s) :
    (rd.header s.header).Number = Block.number id :=
  (hi.number_eq id s hs).symm

lemma env_consistent (hi : Indexed r) (hid : ∀ id s, r.data.lookup id = some s → s.header.id = id) :
    (rd.env r).Consistent where
  id_eq id hdr hget := by
    obtain ⟨s, hs, rfl⟩ := env_getBlockSummary_eq_ok.mp hget
    exact hid id s hs
  number_eq id hdr hget := by
    obtain ⟨s, hs, rfl⟩ := env_getBlockSummary_eq_ok.mp hget
    exact (header_number hi hs).symm
  chain_parent id hdr k hget hk := by
    obtain ⟨s, hs, rfl⟩ := env_getBlockSummary_eq_ok.mp hget
    simp only [env, Chain.getBlockSummary]
    rw [hi.getBlockID_parent hs hk]
    rfl

end Reads

/-- The vote `AddBlock` records for a block. -/
def BftHeader.vote (h : BftHeader) : Vote := ⟨h.ID, h.Signer, h.COM⟩

lemma getCheckPoint_le (n : UInt32) : getCheckPoint n ≤ n := by
  simp only [getCheckPoint, CheckpointInterval, UInt32.le_iff_toNat_le, UInt32.toNat_mul,
    UInt32.toNat_div]
  have hlt := n.toNat_lt
  simp only [UInt32.reduceToNat]
  have hb : n.toNat / 180 * 180 % 2 ^ 32 = n.toNat / 180 * 180 := Nat.mod_eq_of_lt (by omega)
  rw [hb]
  exact Nat.div_mul_le_self _ _

section Walk

variable {r : Repository} (hi : Indexed r) (hid : ∀ id s, r.data.lookup id = some s → s.header.id = id)
  (rd : Reads) (stop : UInt32)
include hi hid

lemma walkVotes_repository : ∀ fuel id s, r.data.lookup id = some s →
    (Block.number id).toNat < fuel → stop ≤ Block.number id →
    ∃ vs, walkVotes (rd.env r) stop fuel (rd.header s.header) = .ok vs ∧
      (vs.map Vote.blockID).Nodup ∧
      ∀ v, v ∈ vs ↔ ∃ a sa, Ancestor r a id ∧ r.data.lookup a = some sa ∧
        stop ≤ Block.number a ∧ rd.FINALITY ≤ Block.number a ∧ v = (rd.header sa.header).vote
  | 0, _, _, _, hfuel, _ => absurd hfuel (Nat.not_lt_zero _)
  | fuel + 1, id, s, hs, hfuel, hstop => by
    have hN : (rd.header s.header).Number = Block.number id := Reads.header_number hi hs
    have hFIN : (rd.env r).FINALITY = rd.FINALITY := rfl
    simp only [walkVotes, hN, hFIN]
    split_ifs with hF hle
    · -- below the fork: no ancestor is past it
      refine ⟨[], rfl, List.nodup_nil, fun v => ⟨fun hv => absurd hv List.not_mem_nil, ?_⟩⟩
      rintro ⟨a, sa, ha, -, -, hFa, -⟩
      have := hi.number_le ha
      rw [UInt32.lt_iff_toNat_lt] at hF
      rw [UInt32.le_iff_toNat_le] at hFa
      omega
    · -- the last block of the walk: the one ancestor at or above `stop`
      refine ⟨[(rd.header s.header).vote], rfl, by simp, fun v => ⟨?_, ?_⟩⟩
      · intro hv
        rw [List.mem_singleton] at hv
        subst hv
        exact ⟨id, s, .self hs, hs, hstop, UInt32.not_lt.mp hF, rfl⟩
      · rintro ⟨a, sa, ha, hsa, hstopa, -, rfl⟩
        have haid : a = id := by
          by_contra hne
          have := hi.number_lt_of_ne ha hne
          rw [UInt32.le_iff_toNat_le] at hle hstopa
          omega
        subst haid
        rw [hs, Option.some_inj] at hsa
        subst hsa
        exact List.mem_singleton_self _
    · -- past `stop`: the block's vote, then the walk from its parent
      have hlt : stop < Block.number id := UInt32.not_le.mp hle
      have h0 : Block.number id ≠ 0 := number_ne_zero_of_lt hlt
      obtain ⟨sp, hsp⟩ := Option.isSome_iff_exists.mp (hi.parent id s hs h0)
      have hpn := hi.number_parent hs h0
      have hget : (rd.env r).getBlockSummary (rd.header s.header).ParentID =
          .ok (rd.header sp.header) := Reads.env_getBlockSummary_eq_ok.mpr ⟨sp, hsp, rfl⟩
      have hstop' : stop ≤ Block.number s.header.parentID := by
        rw [UInt32.lt_iff_toNat_lt] at hlt
        rw [UInt32.le_iff_toNat_le]
        omega
      obtain ⟨vs, hvs, hnd, hmem⟩ :=
        walkVotes_repository fuel _ sp hsp (by omega) hstop'
      refine ⟨(rd.header s.header).vote :: vs, ?_, ?_, fun v => ?_⟩
      · rw [hget]
        change (walkVotes (rd.env r) stop fuel (rd.header sp.header) >>= _) = _
        rw [hvs]
        rfl
      · -- the walk below holds only blocks numbered below this one
        refine List.nodup_cons.mpr ⟨fun hin => ?_, hnd⟩
        obtain ⟨v, hv, hvid⟩ := List.mem_map.mp hin
        obtain ⟨a, sa, ha, hsa, -, -, rfl⟩ := (hmem v).mp hv
        have haid : a = id := (hid a sa hsa).symm.trans (hvid.trans (hid id s hs))
        have := hi.number_le ha
        rw [haid] at this
        omega
      · rw [List.mem_cons, hmem]
        constructor
        · rintro (rfl | ⟨a, sa, ha, hsa, hstopa, hFa, rfl⟩)
          · exact ⟨id, s, .self hs, hs, hstop, UInt32.not_lt.mp hF, rfl⟩
          · exact ⟨a, sa, .parent hs h0 ha, hsa, hstopa, hFa, rfl⟩
        · rintro ⟨a, sa, ha, hsa, hstopa, hFa, rfl⟩
          rcases ha.eq_or_parent hs with rfl | hpa
          · rw [hs, Option.some_inj] at hsa
            exact .inl (by rw [hsa])
          · exact .inr ⟨a, sa, hpa, hsa, hstopa, hFa, rfl⟩

end Walk

/-- `computeState` over a built repository: on every engine that calls on stored blocks reach,
the state of a stored block is the fresh one, whatever blocks were computed before and
whatever the caches evicted; past the fork, with the round's new justifier, it summarizes the
votes of exactly the blocks of the block's chain from it down to the round's checkpoint and to
the fork, one vote each. -/
theorem computeState_round_votes {r : Repository} (hr : Built r) (hzero : r.countAt 0 = 1)
    (hcount : ∀ n, r.countAt n < 2 ^ 32) (rd : Reads) {e : BFTEngine}
    (he : Reachable (rd.env r) e) {id : Bytes32} {s : BlockSummary}
    (hs : r.data.lookup id = some s) :
    (computeState (rd.env r) e (rd.header s.header)).1 = freshState (rd.env r) (rd.header s.header) ∧
    (Block.number id ≠ 0 → rd.FINALITY ≤ Block.number id → ∀ js₀,
      BFTEngine.newJustifier (rd.env r) s.header.parentID = .ok js₀ →
      ∃ votes, freshState (rd.env r) (rd.header s.header) = .ok (js₀.addBlocks votes).Summarize ∧
        (votes.map Vote.blockID).Nodup ∧
        ∀ v, v ∈ votes ↔ ∃ a sa, Ancestor r a id ∧ r.data.lookup a = some sa ∧
          getCheckPoint (Block.number id) ≤ Block.number a ∧ rd.FINALITY ≤ Block.number a ∧
          v = (rd.header sa.header).vote) := by
  have hi := hr.indexed hzero hcount
  have hid := hr.id_eq
  have hc : (rd.env r).Consistent := Reads.env_consistent hi hid
  have hh : (rd.env r).getBlockSummary (rd.header s.header).ID = .ok (rd.header s.header) :=
    Reads.env_getBlockSummary_header hid hs
  have hN : (rd.header s.header).Number = Block.number id := Reads.header_number hi hs
  refine ⟨(computeState_coherent hc (he.coherent hc) hh).1, fun h0 hF js₀ hjs => ?_⟩
  -- the round's new justifier starts at the block's checkpoint
  have hcp : js₀.checkpoint = getCheckPoint (Block.number id) := by
    rw [(newJustifier_ok hjs).1, hi.number_eq id s hs]
    rfl
  obtain ⟨vs, hvs, hnd, hmem⟩ := walkVotes_repository hi hid rd js₀.checkpoint _ id s hs
    (Nat.lt_succ_self _) (hcp ▸ getCheckPoint_le _)
  refine ⟨vs, ?_, hnd, fun v => hcp ▸ hmem v⟩
  have hjs' : BFTEngine.newJustifier (rd.env r) (rd.header s.header).ParentID = .ok js₀ := hjs
  have hfresh : freshJustifier (rd.env r) (rd.header s.header) = .ok (js₀.addBlocks vs) := by
    rw [freshJustifier, hjs', hN]
    change addLoop (rd.env r) js₀.checkpoint ((Block.number id).toNat + 1) js₀ _ = _
    rw [addLoop_eq, hvs]
    rfl
  have hpast : ¬ ((rd.header s.header).Number = 0 ∨
      (rd.header s.header).Number < (rd.env r).FINALITY) := by
    rw [hN, not_or, UInt32.not_lt]
    exact ⟨h0, hF⟩
  rw [freshState, if_neg hpast, hfresh]
  rfl

/-- The reads of the repository with two forks: the fork at block 2, every block committing. -/
def forkReads : Reads := ⟨2, fun _ => true, fun _ => .ok 101, fun _ => .ok 0⟩

/-- Block `3b` on an engine that computed block `2b` before, which reuses `2b`'s justifier: its
state is the fresh one, the votes of `3b` and `2b`. -/
theorem computeState_round_votes_fork :
    ∃ r s₂ s₃, forkedRepository = some r ∧ r.data.lookup block2b.header.id = some s₂ ∧
      r.data.lookup block3b.header.id = some s₃ ∧
      (computeState (forkReads.env r) (computeState (forkReads.env r)
          ⟨[], ⟨fun _ => none, [], 16, fun _ => default, 0⟩⟩ (forkReads.header s₂.header)).2
          (forkReads.header s₃.header)).1 = freshState (forkReads.env r) (forkReads.header s₃.header) ∧
      (Block.number block3b.header.id ≠ 0 → forkReads.FINALITY ≤ Block.number block3b.header.id →
        ∀ js₀, BFTEngine.newJustifier (forkReads.env r) s₃.header.parentID = .ok js₀ →
        ∃ votes, freshState (forkReads.env r) (forkReads.header s₃.header) =
            .ok (js₀.addBlocks votes).Summarize ∧
          (votes.map Vote.blockID).Nodup ∧
          ∀ v, v ∈ votes ↔ ∃ a sa, Ancestor r a block3b.header.id ∧ r.data.lookup a = some sa ∧
            getCheckPoint (Block.number block3b.header.id) ≤ Block.number a ∧
            forkReads.FINALITY ≤ Block.number a ∧ v = (forkReads.header sa.header).vote) := by
  obtain ⟨r, hr, hbuilt, hzero, hcount⟩ := forkedRepository_spec
  obtain ⟨s₂, hs₂⟩ := Option.isSome_iff_exists.mp (forkedRepository_eval hr
    (f := fun r => (r.data.lookup block2b.header.id).isSome) (by decide +kernel))
  obtain ⟨s₃, hs₃⟩ := Option.isSome_iff_exists.mp (forkedRepository_eval hr
    (f := fun r => (r.data.lookup block3b.header.id).isSome) (by decide +kernel))
  have he : Reachable (forkReads.env r) (computeState (forkReads.env r)
      ⟨[], ⟨fun _ => none, [], 16, fun _ => default, 0⟩⟩ (forkReads.header s₂.header)).2 :=
    .computeState (.new rfl) (Reads.env_getBlockSummary_header hbuilt.id_eq hs₂)
  exact ⟨r, s₂, s₃, hr, hs₂, hs₃, computeState_round_votes hbuilt hzero hcount forkReads he hs₃⟩

end AuthorityBlock.Bft
