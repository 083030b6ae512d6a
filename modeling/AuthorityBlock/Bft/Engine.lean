import AuthorityBlock.Bft.Justifier
import AuthorityBlock.Block.Header
import AuthorityBlock.Cache.Prio
import AuthorityBlock.Lib.Lru
import AuthorityBlock.Lib.RlpStream
import AuthorityBlock.Poa.Candidates
import Mathlib

/-! `BFTEngine.computeState` (`bft/engine.go`): the BFT state of the round a block ends, from the
votes of the round's blocks up to it. A cache miss makes a new justifier for the round and walks
from the block back to the round's checkpoint; a block that is not a checkpoint takes its
parent's justifier out of the justifier cache instead, when it is there, and adds its own vote
only. The states computed are kept in an LRU cache by block ID.

The caches never change a result: from caches that hold what a miss would compute, a call
returns what a miss computes and leaves the caches so (`computeState_coherent`), so on every
engine the calls reach each call returns the fresh state (`computeState_fresh`) and `Select`
makes the fork choice of the fresh states (`select_fresh`). The chain and the engine's store are
read through `Env`: the repository only grows and a stored block never changes, so the run reads
the one at its end, whose blocks carry their numbers in their IDs and each block's ancestors are
those of its parent (`Env.Consistent`). The votes a reused justifier holds are those of the walk
in another order, which the summary does not see. -/

namespace AuthorityBlock.Bft

open Cache

/-- `ablock.CheckpointInterval`: the blocks of a BFT round. -/
def CheckpointInterval : UInt32 := 180

def getCheckPoint (blockNum : UInt32) : UInt32 := blockNum / CheckpointInterval * CheckpointInterval

def isCheckPoint (blockNum : UInt32) : Bool := getCheckPoint blockNum == blockNum

/-- What the engine reads of a block header. -/
structure BftHeader where
  ID : Bytes32
  ParentID : Bytes32
  /-- `signer, _ := h.Signer()`: the zero address when the signature does not recover. -/
  Signer : Address
  COM : Bool
  TotalScore : UInt64

/-- `Number`, inferred from the parent ID. -/
def BftHeader.Number (h : BftHeader) : UInt32 := Block.number h.ParentID + 1

/-- `BetterThan`: the larger total score, then the smaller ID. -/
def BftHeader.BetterThan (h other : BftHeader) : Bool :=
  if h.TotalScore > other.TotalScore then true
  else if h.TotalScore < other.TotalScore then false
  else ByteOrder.compareBytes h.ID.bytes other.ID.bytes == .lt

/-- What the engine reads of the chain and of its store. -/
structure Env where
  FINALITY : UInt32
  /-- `repo.GetBlockSummary(id).Header`. -/
  getBlockSummary : Bytes32 → Except String BftHeader
  /-- `repo.NewChain(headID).GetBlockSummary(num).Header`: the block of a number on a chain. -/
  getChainSummary : Bytes32 → UInt32 → Except String BftHeader
  /-- `Params.Get(KeyMaxBlockProposers)` in the state of a block. -/
  MaxBlockProposers : Bytes32 → Except String ℕ
  /-- `getQuality`: the quality the engine stored for a block. -/
  getQuality : Bytes32 → Except String UInt32

instance : Inhabited Justifier := ⟨Justifier.empty 0 0 0⟩

instance : Inhabited Bytes32 := ⟨Bytes32.zero⟩

/-- The caches `computeState` keeps: `caches.state`, an LRU of 256 states by block ID, and
`caches.justifier`, a `PrioCache` of 16 justifiers by block ID, at the block number as
priority (a `uint32`, which `float64` holds exactly). -/
structure BFTEngine where
  states : List (Bytes32 × BftState)
  justifiers : PrioCache Bytes32 Justifier ℤ

namespace BFTEngine

/-- `getMaxBlockProposers`: the parameter in the block's state, clamped as the scheduler clamps
it. -/
def getMaxBlockProposers (env : Env) (id : Bytes32) : Except String UInt64 :=
  (env.MaxBlockProposers id).map Poa.maxBlockProposersOf

/-- `newJustifier`: an empty justifier for the round of the block after `parentID`, with the
quality of the last block of the round before. -/
def newJustifier (env : Env) (parentID : Bytes32) : Except String Justifier := do
  let blockNum := Block.number parentID + 1
  let checkpoint := getCheckPoint blockNum
  let lastOfParentRound : UInt32 := if checkpoint > 0 then checkpoint - 1 else 0
  let sum ← env.getChainSummary parentID lastOfParentRound
  let mbp ← getMaxBlockProposers env sum.ID
  -- quality of last round
  let parentQuality ←
    if blockNum / CheckpointInterval - env.FINALITY / CheckpointInterval = 0 then pure 0
    else env.getQuality sum.ID
  pure (Bft.newJustifier parentQuality checkpoint mbp)

/-- The error of the model when the walk runs out of fuel, which a chain of stored parents does
not let happen. -/
def outOfFuel : String := "bft: walk out of fuel"

/-- The loop of `computeState`: each block from `h` back adds its vote, down to `stop` or to the
fork; `fuel` bounds the walk. -/
def addLoop (env : Env) (stop : UInt32) : ℕ → Justifier → BftHeader → Except String Justifier
  | 0, _, _ => .error outOfFuel
  | fuel + 1, js, h =>
    if h.Number < env.FINALITY then .ok js
    else
      let js := js.AddBlock h.ID h.Signer h.COM
      if h.Number ≤ stop then .ok js
      else do
        let sum ← env.getBlockSummary h.ParentID
        addLoop env stop fuel js sum

/-- `computeState`: the state in the cache, or nothing before the fork, or the votes of the
round added to the parent's cached justifier or to a new one; the state and the justifier are
then cached under the block. -/
def computeState (env : Env) (e : BFTEngine) (header : BftHeader) :
    Except String BftState × BFTEngine :=
  match Lru.get e.states header.ID with
  | (some st, states) => (.ok st, { e with states })
  | (none, states) =>
    let e := { e with states }
    if header.Number = 0 ∨ header.Number < env.FINALITY then (.ok ⟨0, false, false⟩, e)
    else
      let (justifiers, entry) := e.justifiers.Remove header.ParentID
      let e := { e with justifiers }
      let start : Except String (Justifier × UInt32) :=
        match !isCheckPoint header.Number, entry with
        | true, some entry => .ok (entry.Value, header.Number)
        | _, _ => do
          -- create a new vote set if cache missed or new block is checkpoint
          let js ← (newJustifier env header.ParentID).mapError ("failed to create vote set: " ++ ·)
          pure (js, js.checkpoint)
      match start >>= fun (js, stop) => addLoop env stop (header.Number.toNat + 1) js header with
      | .error err => (.error err, e)
      | .ok js =>
        let st := js.Summarize
        (.ok st, { states := Lru.add 256 e.states header.ID st
                   justifiers := e.justifiers.Set header.ID js header.Number.toNat })

/-! ### The fresh computation -/

/-- What a miss of both caches computes: a new justifier for the round, with the votes of the
walk from the block back. -/
def freshJustifier (env : Env) (header : BftHeader) : Except String Justifier := do
  let js ← (newJustifier env header.ParentID).mapError ("failed to create vote set: " ++ ·)
  addLoop env js.checkpoint (header.Number.toNat + 1) js header

def freshState (env : Env) (header : BftHeader) : Except String BftState :=
  if header.Number = 0 ∨ header.Number < env.FINALITY then .ok ⟨0, false, false⟩
  else (freshJustifier env header).map (·.Summarize)

/-- The votes `addLoop` adds, in its order. -/
def walkVotes (env : Env) (stop : UInt32) : ℕ → BftHeader → Except String (List Vote)
  | 0, _ => .error outOfFuel
  | fuel + 1, h =>
    if h.Number < env.FINALITY then .ok []
    else if h.Number ≤ stop then .ok [⟨h.ID, h.Signer, h.COM⟩]
    else do
      let sum ← env.getBlockSummary h.ParentID
      let vs ← walkVotes env stop fuel sum
      pure (⟨h.ID, h.Signer, h.COM⟩ :: vs)

lemma addLoop_eq (env : Env) (stop : UInt32) :
    ∀ fuel js h, addLoop env stop fuel js h = (walkVotes env stop fuel h).map js.addBlocks
  | 0, _, _ => rfl
  | fuel + 1, js, h => by
    simp only [addLoop, walkVotes]
    split_ifs
    · rfl
    · rfl
    cases env.getBlockSummary h.ParentID with
    | error err => rfl
    | ok sum =>
      change addLoop env stop fuel _ sum = Except.map _ (walkVotes env stop fuel sum >>= _)
      rw [addLoop_eq env stop fuel]
      cases walkVotes env stop fuel sum <;> rfl

/-! ### Rounds -/

lemma getCheckPoint_lt {n : UInt32} (hn : isCheckPoint n = false) : getCheckPoint n < n := by
  simp only [isCheckPoint, getCheckPoint, CheckpointInterval, beq_eq_false_iff_ne, ne_eq,
    UInt32.lt_iff_toNat_lt, ← UInt32.toNat_inj, UInt32.toNat_mul, UInt32.toNat_div] at *
  have hlt := n.toNat_lt
  simp only [UInt32.reduceToNat] at *
  omega

lemma round_succ {x : UInt32} (hn : isCheckPoint (x + 1) = false) :
    getCheckPoint (x + 1) = getCheckPoint x ∧ (x + 1) / CheckpointInterval = x / CheckpointInterval := by
  simp only [isCheckPoint, getCheckPoint, CheckpointInterval, beq_eq_false_iff_ne, ne_eq,
    ← UInt32.toNat_inj, UInt32.toNat_mul, UInt32.toNat_div, UInt32.toNat_add] at hn ⊢
  have hlt := x.toNat_lt
  simp only [UInt32.reduceToNat] at hn ⊢
  -- the successor does not wrap around: block 0 is a checkpoint
  have hx' : (x.toNat + 1) % 2 ^ 32 = x.toNat + 1 := by omega
  rw [hx'] at hn ⊢
  have hb : x.toNat / 180 * 180 % 2 ^ 32 = x.toNat / 180 * 180 := Nat.mod_eq_of_lt (by omega)
  have hb' : (x.toNat + 1) / 180 * 180 % 2 ^ 32 = (x.toNat + 1) / 180 * 180 :=
    Nat.mod_eq_of_lt (by omega)
  rw [hb, hb'] at *
  constructor <;> omega

lemma lastOfParentRound_lt {x : UInt32} (hx : x ≠ 0) :
    (if getCheckPoint x > 0 then getCheckPoint x - 1 else 0) < x := by
  simp only [getCheckPoint, CheckpointInterval, gt_iff_lt, UInt32.lt_iff_toNat_lt, ne_eq,
    ← UInt32.toNat_inj, UInt32.toNat_mul, UInt32.toNat_div] at *
  have hlt := x.toNat_lt
  simp only [UInt32.reduceToNat] at *
  have hb : x.toNat / 180 * 180 % 2 ^ 32 = x.toNat / 180 * 180 := Nat.mod_eq_of_lt (by omega)
  split_ifs with hpos
  · rw [UInt32.toNat_sub_of_le _ _ (by simp only [UInt32.le_iff_toNat_le,
      UInt32.toNat_mul, UInt32.toNat_div, UInt32.reduceToNat, hb]; omega)]
    simp only [UInt32.toNat_mul, UInt32.toNat_div, UInt32.reduceToNat, hb] at hpos ⊢
    omega
  · simp only [UInt32.reduceToNat]
    omega

/-! ### The justifier of a round -/

variable {env : Env}

lemma newJustifier_ok {parentID : Bytes32} {js : Justifier} (h : newJustifier env parentID = .ok js) :
    js.checkpoint = getCheckPoint (Block.number parentID + 1) ∧
      ∃ parentQuality threshold, js = Justifier.empty parentQuality js.checkpoint threshold := by
  obtain ⟨sum, -, h⟩ := Rlp.bind_eq_ok h
  obtain ⟨mbp, -, h⟩ := Rlp.bind_eq_ok h
  dsimp only at h
  -- the quality of the round before, zero for the first round of the fork
  split_ifs at h <;>
  · obtain ⟨parentQuality, -, h⟩ := Rlp.bind_eq_ok h
    obtain rfl := Except.ok.inj h
    exact ⟨rfl, parentQuality, _, rfl⟩

lemma summarize_addBlocks_perm (parentQuality checkpoint : UInt32) (threshold : UInt64)
    {l l' : List Vote} (h : l.Perm l') :
    ((Justifier.empty parentQuality checkpoint threshold).addBlocks l).Summarize =
      ((Justifier.empty parentQuality checkpoint threshold).addBlocks l').Summarize := by
  have htr : Tracks ((Justifier.empty parentQuality checkpoint threshold).addBlocks l) l := by
    simpa using (tracks_empty parentQuality checkpoint threshold).addBlocks l
  have htr' : Tracks ((Justifier.empty parentQuality checkpoint threshold).addBlocks l') l' := by
    simpa using (tracks_empty parentQuality checkpoint threshold).addBlocks l'
  obtain ⟨hq, ht⟩ := addBlocks_params (Justifier.empty parentQuality checkpoint threshold) l
  obtain ⟨hq', ht'⟩ := addBlocks_params (Justifier.empty parentQuality checkpoint threshold) l'
  rw [htr.summarize_eq, htr'.summarize_eq, hq, ht, hq', ht', summary_perm _ _ h]

end BFTEngine

/-- What the engine reads is that of one chain: a stored block is stored under its ID, which
carries its number, and below a block the chain holds what it holds below its parent. -/
structure Env.Consistent (env : Env) : Prop where
  id_eq : ∀ id h, env.getBlockSummary id = .ok h → h.ID = id
  number_eq : ∀ id h, env.getBlockSummary id = .ok h → Block.number id = h.Number
  chain_parent : ∀ id h k, env.getBlockSummary id = .ok h → k < Block.number id →
    env.getChainSummary id k = env.getChainSummary h.ParentID k

namespace BFTEngine

variable {env : Env}

lemma newJustifier_parent (hc : env.Consistent) {header p : BftHeader}
    (hp : env.getBlockSummary header.ParentID = .ok p) (hpn : p.Number ≠ 0)
    (hnc : isCheckPoint header.Number = false) :
    newJustifier env header.ParentID = newJustifier env p.ParentID := by
  have hx : Block.number p.ParentID + 1 = Block.number header.ParentID :=
    (hc.number_eq _ _ hp).symm
  obtain ⟨hcp, hdiv⟩ := round_succ hnc
  have hk := lastOfParentRound_lt (hx ▸ hpn : Block.number header.ParentID ≠ 0)
  simp only [newJustifier, hx]
  rw [hcp, hdiv, hc.chain_parent _ _ _ hp hk]

/-! ### What the caches hold -/

/-- A justifier the cache may hold for a block: the new justifier of its round, with the votes of
the walk from the block back, in some order. -/
def CachedJustifier (env : Env) (id : Bytes32) (js : Justifier) : Prop :=
  ∃ h, env.getBlockSummary id = .ok h ∧ h.Number ≠ 0 ∧ env.FINALITY ≤ h.Number ∧
    ∃ js₀ vs l, newJustifier env h.ParentID = .ok js₀ ∧
      walkVotes env js₀.checkpoint (h.Number.toNat + 1) h = .ok vs ∧ l.Perm vs ∧
      js = js₀.addBlocks l

/-- The caches hold what a miss would compute: the fresh state of the block of each ID, and a
justifier of its round. -/
structure Coherent (env : Env) (e : BFTEngine) : Prop where
  wf : e.justifiers.Wf
  states : ∀ id st, (id, st) ∈ e.states →
    ∃ h, env.getBlockSummary id = .ok h ∧ freshState env h = .ok st
  justifiers : ∀ id js pr, e.justifiers.Get id = some (js, pr) → CachedJustifier env id js

variable {header : BftHeader}

lemma cachedJustifier_fresh (hh : env.getBlockSummary header.ID = .ok header)
    (hn : header.Number ≠ 0) (hf : env.FINALITY ≤ header.Number) {js : Justifier}
    (h : freshJustifier env header = .ok js) : CachedJustifier env header.ID js := by
  obtain ⟨js₀, hnj, h⟩ := Rlp.bind_eq_ok h
  have hnj' := Rlp.mapError_eq_ok hnj
  rw [addLoop_eq] at h
  obtain ⟨vs, hw, rfl⟩ := Rlp.map_eq_ok h
  exact ⟨header, hh, hn, hf, js₀, vs, vs, hnj', hw, List.Perm.refl vs, rfl⟩

lemma CachedJustifier.step (hc : env.Consistent) (hh : env.getBlockSummary header.ID = .ok header)
    (hn : header.Number ≠ 0) (hf : env.FINALITY ≤ header.Number)
    (hnc : isCheckPoint header.Number = false) {js : Justifier}
    (hcj : CachedJustifier env header.ParentID js) :
    addLoop env header.Number (header.Number.toNat + 1) js header =
        .ok (js.AddBlock header.ID header.Signer header.COM) ∧
      CachedJustifier env header.ID (js.AddBlock header.ID header.Signer header.COM) ∧
      (freshJustifier env header).map (·.Summarize) =
        .ok (js.AddBlock header.ID header.Signer header.COM).Summarize := by
  obtain ⟨p, hp, hpn, -, js₀, vs, l, hnj, hw, hperm, rfl⟩ := hcj
  have hparent := newJustifier_parent hc hp hpn hnc
  obtain ⟨hcp, pq, thr, hjs₀⟩ := newJustifier_ok hnj
  have hpnum : Block.number p.ParentID + 1 = Block.number header.ParentID :=
    (hc.number_eq _ _ hp).symm
  -- the block is in its parent's round, past its checkpoint
  have hcp' : js₀.checkpoint = getCheckPoint header.Number := by
    rw [hcp, hpnum]
    exact (round_succ hnc).1.symm
  have hlt : js₀.checkpoint < header.Number := hcp' ▸ getCheckPoint_lt hnc
  have hfuel : header.Number.toNat = p.Number.toNat + 1 := by
    have hnum : header.Number = p.Number + 1 := by
      rw [BftHeader.Number, BftHeader.Number, hpnum]
    rw [hnum] at hn ⊢
    have hlt := p.Number.toNat_lt
    simp only [ne_eq, ← UInt32.toNat_inj, UInt32.toNat_add, UInt32.reduceToNat] at hn ⊢
    omega
  set v : Vote := ⟨header.ID, header.Signer, header.COM⟩
  -- the walk from the cached justifier stops at the block itself
  have hloop : addLoop env header.Number (header.Number.toNat + 1) (js₀.addBlocks l) header =
      .ok ((js₀.addBlocks l).AddBlock header.ID header.Signer header.COM) := by
    simp only [addLoop, if_neg (UInt32.not_lt.mpr hf), UInt32.le_refl, if_true]
  -- the fresh walk adds the block's vote, then walks on from the parent as the parent's did
  have hwalk : walkVotes env js₀.checkpoint (header.Number.toNat + 1) header = .ok (v :: vs) := by
    rw [hfuel, walkVotes, if_neg (UInt32.not_lt.mpr hf), if_neg (UInt32.not_le.mpr hlt)]
    rw [hp]
    change (walkVotes env js₀.checkpoint (p.Number.toNat + 1) p >>= fun vs => _) = _
    rw [hw]
    rfl
  have hadd : (js₀.addBlocks l).AddBlock header.ID header.Signer header.COM =
      js₀.addBlocks (l ++ [v]) := by
    simp [v]
  have hperm' : (l ++ [v]).Perm (v :: vs) := (List.perm_append_singleton v l).trans (hperm.cons v)
  have hfresh : freshJustifier env header = .ok (js₀.addBlocks (v :: vs)) := by
    simp only [freshJustifier, hparent, hnj]
    change addLoop env js₀.checkpoint (header.Number.toNat + 1) js₀ header = _
    rw [addLoop_eq, hwalk]
    rfl
  refine ⟨hloop, ⟨header, hh, hn, hf, js₀, v :: vs, l ++ [v], hparent ▸ hnj, hwalk, hperm', hadd⟩,
    ?_⟩
  rw [hfresh, hadd]
  change Except.ok (js₀.addBlocks (v :: vs)).Summarize = .ok (js₀.addBlocks (l ++ [v])).Summarize
  rw [hjs₀, summarize_addBlocks_perm _ _ _ hperm']


/-! ### Each call -/

variable {e : BFTEngine}

lemma freshJustifier_eq_start : freshJustifier env header =
    (((newJustifier env header.ParentID).mapError ("failed to create vote set: " ++ ·) >>=
      fun js => pure (js, js.checkpoint)) >>=
        fun x => addLoop env x.2 (header.Number.toNat + 1) x.1 header) := by
  unfold freshJustifier
  cases (newJustifier env header.ParentID).mapError ("failed to create vote set: " ++ ·) <;> rfl

lemma Coherent.get (hcoh : Coherent env e) {key : Bytes32} {o : Option BftState}
    {states : List (Bytes32 × BftState)} (hget : Lru.get e.states key = (o, states)) :
    Coherent env { e with states } :=
  ⟨hcoh.wf, fun id st hmem => hcoh.states id st (Lru.mem_get (by rw [hget]; exact hmem)),
    hcoh.justifiers⟩

lemma Coherent.remove (hcoh : Coherent env e) {key : Bytes32} {justifiers entry}
    (hrem : e.justifiers.Remove key = (justifiers, entry)) :
    Coherent env { e with justifiers } ∧
      ∀ en, entry = some en → CachedJustifier env key en.Value := by
  obtain ⟨hw, -, hget, hent⟩ := PrioCache.remove_spec hcoh.wf key
  rw [hrem] at hw hget hent
  refine ⟨⟨hw, hcoh.states, fun id js pr h => ?_⟩, fun en hen => ?_⟩
  · rw [hget] at h
    have hid : id ≠ key := by
      rintro rfl
      simp at h
    rw [Function.update_of_ne hid] at h
    exact hcoh.justifiers id js pr h
  · rw [hen, Option.map_some] at hent
    exact hcoh.justifiers key en.Value en.Priority hent.symm

lemma Coherent.add (hcoh : Coherent env e) (hh : env.getBlockSummary header.ID = .ok header)
    {js : Justifier} (hst : freshState env header = .ok js.Summarize)
    (hjs : CachedJustifier env header.ID js) :
    Coherent env { states := Lru.add 256 e.states header.ID js.Summarize
                   justifiers := e.justifiers.Set header.ID js header.Number.toNat } := by
  obtain ⟨hw, -, hspec⟩ := PrioCache.set_spec hcoh.wf header.ID js (header.Number.toNat : ℤ)
  refine ⟨hw, fun id st hmem => ?_, fun id js' pr h => ?_⟩
  · rcases Lru.mem_add hmem with h | h
    · obtain ⟨rfl, rfl⟩ := Prod.mk.inj h
      exact ⟨header, hh, hst⟩
    · exact hcoh.states id st h
  · rcases hspec.get_some hcoh.wf.len_le h with ⟨rfl, hy⟩ | h
    · obtain ⟨rfl, -⟩ := Prod.mk.inj hy
      exact hjs
    · exact hcoh.justifiers id js' pr h

lemma computeState_coherent (hc : env.Consistent) (hcoh : Coherent env e)
    (hh : env.getBlockSummary header.ID = .ok header) :
    (computeState env e header).1 = freshState env header ∧
      Coherent env (computeState env e header).2 := by
  unfold computeState
  rcases hget : Lru.get e.states header.ID with ⟨_ | st, states⟩
  · have hcoh₁ := hcoh.get hget
    dsimp only
    by_cases hz : header.Number = 0 ∨ header.Number < env.FINALITY
    · rw [if_pos hz, freshState, if_pos hz]
      exact ⟨rfl, hcoh₁⟩
    rw [if_neg hz]
    rcases hrem : e.justifiers.Remove header.ParentID with ⟨justifiers, entry⟩
    obtain ⟨hcoh₂, hentry⟩ := hcoh₁.remove hrem
    dsimp only
    obtain ⟨hn, hf⟩ : header.Number ≠ 0 ∧ env.FINALITY ≤ header.Number :=
      ⟨fun h => hz (.inl h), UInt32.not_lt.mp fun h => hz (.inr h)⟩
    have hfresh : freshState env header = (freshJustifier env header).map (·.Summarize) := by
      rw [freshState, if_neg hz]
    cases hnc : isCheckPoint header.Number <;> cases entry
    case false.some en =>
      -- the parent's justifier, reused: the block adds its vote, and the summary is the fresh one
      obtain ⟨hloop, hjs, hsum⟩ := CachedJustifier.step hc hh hn hf hnc (hentry en rfl)
      split
      next err heq => cases heq.symm.trans hloop
      next js heq =>
        obtain rfl := Except.ok.inj (heq.symm.trans hloop)
        exact ⟨(hfresh.trans hsum).symm, hcoh₂.add hh (hfresh.trans hsum) hjs⟩
    -- a checkpoint, or a parent whose justifier is not cached: the walk is the fresh one
    all_goals
      split
      next err heq =>
        have hfr : freshJustifier env header = .error err := freshJustifier_eq_start.trans heq
        exact ⟨by rw [hfresh, hfr]; rfl, hcoh₂⟩
      next js heq =>
        have hfr : freshJustifier env header = .ok js := freshJustifier_eq_start.trans heq
        have hst : freshState env header = .ok js.Summarize := by rw [hfresh, hfr]; rfl
        exact ⟨hst.symm, hcoh₂.add hh hst (cachedJustifier_fresh hh hn hf hfr)⟩
  · -- a hit: the cached state is the block's fresh state
    obtain ⟨h, hh', hst⟩ := hcoh.states _ _ (Lru.get_some (by rw [hget]))
    obtain rfl : h = header := Except.ok.inj (hh'.symm.trans hh)
    exact ⟨hst.symm, hcoh.get hget⟩

/-! ### Runs of the engine -/

/-- `Select`: whether the new block is better than the best, by the qualities of their BFT
states and then by `BetterThan`. The best block is the repository's at the call, which moves as
blocks are added, so it is the call's argument; the chain the engine reads stays `env`. -/
def Select (env : Env) (e : BFTEngine) (best header : BftHeader) : Except String Bool × BFTEngine :=
  match computeState env e header with
  | (.error err, e) => (.error err, e)
  | (.ok newSt, e) =>
    match computeState env e best with
    | (.error err, e) => (.error err, e)
    | (.ok bestSt, e) =>
      if newSt.Quality ≠ bestSt.Quality then (.ok (newSt.Quality > bestSt.Quality), e)
      else (.ok (header.BetterThan best), e)

/-- What `Select` decides from the fresh states: the fork choice without the caches. -/
def freshSelect (env : Env) (best header : BftHeader) : Except String Bool := do
  let newSt ← freshState env header
  let bestSt ← freshState env best
  if newSt.Quality ≠ bestSt.Quality then pure (newSt.Quality > bestSt.Quality)
  else pure (header.BetterThan best)

lemma select_coherent (hc : env.Consistent) (hcoh : Coherent env e) {best : BftHeader}
    (hh : env.getBlockSummary header.ID = .ok header)
    (hbest : env.getBlockSummary best.ID = .ok best) :
    (Select env e best header).1 = freshSelect env best header ∧
      Coherent env (Select env e best header).2 := by
  obtain ⟨h₁, hcoh₁⟩ := computeState_coherent hc hcoh hh
  unfold Select freshSelect
  rcases hcs : computeState env e header with ⟨err | newSt, e₁⟩
  all_goals rw [hcs] at h₁ hcoh₁
  · rw [← h₁]
    exact ⟨rfl, hcoh₁⟩
  obtain ⟨h₂, hcoh₂⟩ := computeState_coherent hc hcoh₁ hbest
  dsimp only
  rcases hcs' : computeState env e₁ best with ⟨err | bestSt, e₂⟩
  all_goals rw [hcs'] at h₂ hcoh₂
  · rw [← h₁, ← h₂]
    exact ⟨rfl, hcoh₂⟩
  · rw [← h₁, ← h₂]
    dsimp only
    refine ⟨?_, by split_ifs <;> exact hcoh₂⟩
    change _ = if newSt.Quality ≠ bestSt.Quality then pure _ else pure _
    split_ifs <;> rfl

/-- The engines the engine's calls reach from a new one, each call of a stored block. -/
inductive Reachable (env : Env) : BFTEngine → Prop
  | new {pc : PrioCache Bytes32 Justifier ℤ} : NewPrioCache 16 = some pc → Reachable env ⟨[], pc⟩
  | computeState {e : BFTEngine} {header : BftHeader} : Reachable env e →
      env.getBlockSummary header.ID = .ok header → Reachable env (computeState env e header).2
  | Select {e : BFTEngine} {best header : BftHeader} : Reachable env e →
      env.getBlockSummary best.ID = .ok best → env.getBlockSummary header.ID = .ok header →
      Reachable env (Select env e best header).2

lemma coherent_new {pc : PrioCache Bytes32 Justifier ℤ} (hpc : NewPrioCache 16 = some pc) :
    Coherent env ⟨[], pc⟩ := by
  obtain ⟨pc', hpc', hw, -⟩ := newPrioCache_wf (K := Bytes32) (V := Justifier) (P := ℤ)
    (show (1 : ℤ) ≤ 16 by decide)
  obtain rfl := Option.some.inj (hpc.symm.trans hpc')
  refine ⟨hw, fun _ _ h => absurd h List.not_mem_nil, fun id js pr h => ?_⟩
  simp only [NewPrioCache, Option.ite_none_left_eq_some] at hpc
  obtain rfl := Option.some.inj hpc.2
  cases h

lemma Reachable.coherent (hc : env.Consistent) (hr : Reachable env e) : Coherent env e := by
  induction hr with
  | new hpc => exact coherent_new hpc
  | computeState _ hh ih => exact (computeState_coherent hc ih hh).2
  | Select _ hbest hh ih => exact (select_coherent hc ih hh hbest).2

/-- A chain of a genesis and two blocks, each ID carrying its number; the round starts at the
genesis and votes count from it. -/
def sampleID (a b : UInt8) : Bytes32 := ⟨[a, a, a, b] ++ List.replicate 28 0, rfl⟩

def sampleBlock (n : UInt8) : BftHeader :=
  ⟨sampleID 0 n, if n = 0 then sampleID 255 255 else sampleID 0 (n - 1), Address.zero, true,
    n.toUInt64⟩

def sampleChain : Env where
  FINALITY := 0
  getBlockSummary id :=
    match ([0, 1, 2].map sampleBlock).find? (·.ID = id) with
    | some h => .ok h
    | none => .error "not found"
  getChainSummary _ k :=
    match ([0, 1, 2].map sampleBlock).find? (·.Number = k) with
    | some h => .ok h
    | none => .error "not found"
  MaxBlockProposers _ := .ok 101
  getQuality _ := .ok 0

lemma sampleChain_consistent : sampleChain.Consistent := by
  have hfind : ∀ id h, sampleChain.getBlockSummary id = .ok h →
      h.ID = id ∧ h ∈ [0, 1, 2].map sampleBlock := by
    intro id h hget
    simp only [sampleChain] at hget
    split at hget
    · next h' hfind =>
      obtain rfl := Except.ok.inj hget
      exact ⟨by simpa using List.find?_some hfind, List.mem_of_find?_eq_some hfind⟩
    · cases hget
  refine ⟨fun id h hget => (hfind id h hget).1, fun id h hget => ?_, fun _ _ _ _ _ => rfl⟩
  obtain ⟨rfl, hmem⟩ := hfind id h hget
  simp only [List.map_cons, List.map_nil, List.mem_cons, List.not_mem_nil, or_false] at hmem
  rcases hmem with rfl | rfl | rfl <;> decide

/-- The caches never change what `computeState` returns: on every engine the calls reach, a
call returns what a miss of both caches computes. -/
theorem computeState_fresh (hc : env.Consistent) (hr : Reachable env e)
    (hh : env.getBlockSummary header.ID = .ok header) :
    (computeState env e header).1 = freshState env header :=
  (computeState_coherent hc (hr.coherent hc) hh).1

/-- Block 2 after block 1 reuses block 1's justifier. -/
theorem computeState_fresh_reuse :
    (computeState sampleChain (computeState sampleChain ⟨[], ⟨fun _ => none, [], 16,
      fun _ => default, 0⟩⟩ (sampleBlock 1)).2 (sampleBlock 2)).1 =
        freshState sampleChain (sampleBlock 2) :=
  computeState_fresh sampleChain_consistent (.computeState (.new rfl) rfl) rfl

/-- The fork choice of the engine is that of the fresh states: on every engine the calls reach,
`Select` decides as the states computed without the caches do. -/
theorem select_fresh (hc : env.Consistent) (hr : Reachable env e) {best : BftHeader}
    (hh : env.getBlockSummary header.ID = .ok header)
    (hbest : env.getBlockSummary best.ID = .ok best) :
    (Select env e best header).1 = freshSelect env best header :=
  (select_coherent hc (hr.coherent hc) hh hbest).1

theorem select_fresh_child :
    (Select sampleChain (computeState sampleChain ⟨[], ⟨fun _ => none, [], 16,
      fun _ => default, 0⟩⟩ (sampleBlock 1)).2 (sampleBlock 1) (sampleBlock 2)).1 =
        freshSelect sampleChain (sampleBlock 1) (sampleBlock 2) :=
  select_fresh sampleChain_consistent (.computeState (.new rfl) rfl) rfl rfl

end BFTEngine

end AuthorityBlock.Bft
