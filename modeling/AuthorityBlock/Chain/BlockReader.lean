import AuthorityBlock.Chain.Index

/-! The model of `chain/block_reader.go`: the stream of block activity from a position.

Each `Read` walks down from the position while it is above the best block's number or off the
best chain, emitting each block it leaves as obsolete. It then emits the best chain's next
block and moves there. The position is a variable of the closure, so it keeps what the walk
did also when a `Read` fails.

A subscriber rebuilds its view by replaying the events as pops and pushes (`replay`). That
works while the best block is not an ancestor of the position, since the walk then ends on
the best chain below the best block (`read_replays`). When the best block is a proper
ancestor of the position, the walk reaches the best block itself and finds no block after it.
The `Read` then fails, and the blocks it left are never reported. -/

namespace AuthorityBlock.Chain

open Repository

structure ExtendedBlock where
  id : Bytes32
  obsolete : Bool
deriving DecidableEq

/-- The loop of `Read` down from `position`, with the blocks emitted so far: the result of the
`Read`, and the position it leaves. `fuel` bounds the walk, which takes one step per number in
a built repository. -/
def readLoop (r : Repository) (bestChain : Chain) (headNum : UInt32) :
    ℕ → Bytes32 → List ExtendedBlock → Except ChainError (List ExtendedBlock) × Bytes32
  | 0, position, _ => (.error .notFound, position)
  | fuel + 1, position, blocks =>
    match r.data.lookup position with
    | none => (.error .notFound, position)
    | some cur =>
      if Block.number position > headNum then
        readLoop r bestChain headNum fuel cur.header.parentID (blocks ++ [⟨position, true⟩])
      else
        match bestChain.hasBlock position with
        | .error e => (.error e, position)
        | .ok true =>
          match bestChain.getBlockID (Block.number position + 1) with
          | .error e => (.error e, position)
          | .ok next =>
            match r.data.lookup next with
            | none => (.error .notFound, position)
            | some _ => (.ok (blocks ++ [⟨next, false⟩]), next)
        | .ok false =>
          readLoop r bestChain headNum fuel cur.header.parentID (blocks ++ [⟨position, true⟩])

/-- `Read` at `position` while `best` is the best block. -/
def Repository.read (r : Repository) (best position : Bytes32) :
    Except ChainError (List ExtendedBlock) × Bytes32 :=
  if best = position then (.ok [], position)
  else
    readLoop r (r.newChain best) (Block.number best) ((Block.number position).toNat + 1) position []

/-- A subscriber's view, the blocks from the genesis up, rebuilt from the events: an obsolete
block is popped off the top, any other is pushed. `none` when an obsolete block is not on
top. -/
def replay : List ExtendedBlock → List Bytes32 → Option (List Bytes32)
  | [], view => some view
  | ⟨b, true⟩ :: events, view => if view.getLast? = some b then replay events view.dropLast else none
  | ⟨b, false⟩ :: events, view => replay events (view ++ [b])

/-- `l` lists the ancestors of `p` from the genesis up to `p`. -/
inductive Lineage (r : Repository) : Bytes32 → List Bytes32 → Prop
  | root {p : Bytes32} {s : BlockSummary} : r.data.lookup p = some s → Block.number p = 0 →
      Lineage r p [p]
  | cons {p : Bytes32} {s : BlockSummary} {l : List Bytes32} : r.data.lookup p = some s →
      Block.number p ≠ 0 → Lineage r s.header.parentID l → Lineage r p (l ++ [p])

/-- The position after `n` reads while `best` stays the best block. -/
def Repository.positionAfter (r : Repository) (best : Bytes32) : ℕ → Bytes32 → Bytes32
  | 0, position => position
  | n + 1, position => r.positionAfter best n (r.read best position).2

lemma Lineage.stored {r : Repository} {p : Bytes32} {l : List Bytes32} (hl : Lineage r p l) :
    (r.data.lookup p).isSome := by
  cases hl with
  | root hp _ => simp [hp]
  | cons hp _ _ => simp [hp]

/-! ## One iteration of the loop -/

section Iteration

variable {r : Repository} {bestChain : Chain} {headNum : UInt32} {fuel : ℕ} {p : Bytes32}
  {s : BlockSummary} {blocks : List ExtendedBlock}

lemma readLoop_pop (hp : r.data.lookup p = some s)
    (hoff : Block.number p > headNum ∨ bestChain.hasBlock p = .ok false) :
    readLoop r bestChain headNum (fuel + 1) p blocks =
      readLoop r bestChain headNum fuel s.header.parentID (blocks ++ [⟨p, true⟩]) := by
  simp only [readLoop, hp]
  by_cases hgt : Block.number p > headNum
  · rw [if_pos hgt]
  · rw [if_neg hgt, hoff.resolve_left hgt]

lemma readLoop_push (hp : r.data.lookup p = some s) (hle : ¬ Block.number p > headNum)
    (hhas : bestChain.hasBlock p = .ok true) {next : Bytes32} {sn : BlockSummary}
    (hnext : bestChain.getBlockID (Block.number p + 1) = .ok next)
    (hn : r.data.lookup next = some sn) :
    readLoop r bestChain headNum (fuel + 1) p blocks = (.ok (blocks ++ [⟨next, false⟩]), next) := by
  simp only [readLoop, hp, if_neg hle, hhas, hnext, hn]

lemma readLoop_fails (hp : r.data.lookup p = some s) (hle : ¬ Block.number p > headNum)
    (hhas : bestChain.hasBlock p = .ok true) {e : ChainError}
    (hnext : bestChain.getBlockID (Block.number p + 1) = .error e) :
    readLoop r bestChain headNum (fuel + 1) p blocks = (.error e, p) := by
  simp only [readLoop, hp, if_neg hle, hhas, hnext]

end Iteration

/-! ## Ancestry facts the walk uses -/

section Ancestry

variable {r : Repository} (hi : Indexed r)
include hi

lemma Indexed.number_lt_of_ne {a h : Bytes32} (ha : Ancestor r a h) (hne : a ≠ h) :
    (Block.number a).toNat < (Block.number h).toNat := by
  cases ha with
  | self _ => exact absurd rfl hne
  | parent hs h0 hpa =>
    have := hi.number_le hpa
    have := hi.number_parent hs h0
    omega

lemma Indexed.ancestor_parent {a h : Bytes32} {sa : BlockSummary} (ha : Ancestor r a h)
    (hsa : r.data.lookup a = some sa) (h0 : Block.number a ≠ 0) :
    Ancestor r sa.header.parentID h := by
  induction ha with
  | self _ =>
    obtain ⟨sp, hsp⟩ := Option.isSome_iff_exists.mp (hi.parent a sa hsa h0)
    exact .parent hsa h0 (.self hsp)
  | parent hs hh0 _ ih => exact .parent hs hh0 ih

lemma Indexed.ancestor_unique {a a' h : Bytes32} {s : BlockSummary}
    (hs : r.data.lookup h = some s) (ha : Ancestor r a h) (ha' : Ancestor r a' h)
    (hn : Block.number a = Block.number a') : a = a' := by
  obtain ⟨trie, hT, -, -⟩ := hi.read hs
  have h1 := (hT _ a).mpr ⟨ha, rfl⟩
  have h2 := (hT _ a').mpr ⟨ha', hn.symm⟩
  rw [h1, Option.some_inj] at h2
  exact h2

lemma Indexed.eq_of_number_eq_zero (hzero : r.countAt 0 = 1) {a b : Bytes32}
    {sa sb : BlockSummary} (hsa : r.data.lookup a = some sa) (hsb : r.data.lookup b = some sb)
    (ha : Block.number a = 0) (hb : Block.number b = 0) : a = b := by
  have hca := hi.conflicts_lt a sa hsa
  have hcb := hi.conflicts_lt b sb hsb
  rw [ha, hzero] at hca
  rw [hb, hzero] at hcb
  exact hi.conflicts_inj a sa b sb hsa hsb (ha.trans hb.symm)
    (UInt32.toNat_inj.mp (by omega))

end Ancestry

/-! ## The walk -/

section Walk

variable {r : Repository} (hi : Indexed r) {best : Bytes32} {sb : BlockSummary}
  (hb : r.data.lookup best = some sb)
include hi hb

lemma readLoop_of_ancestor (hlt : (Block.number best).toNat + 1 < 2 ^ 32) {p : Bytes32}
    (hp : Ancestor r best p) {fuel : ℕ}
    (hfuel : (Block.number p).toNat - (Block.number best).toNat < fuel)
    (blocks : List ExtendedBlock) :
    readLoop r (r.newChain best) (Block.number best) fuel p blocks = (.error .notFound, best) := by
  obtain ⟨trie, hT, hget, hhas⟩ := hi.read hb
  induction hp generalizing fuel blocks with
  | self _ =>
    obtain ⟨fuel, rfl⟩ : ∃ f, fuel = f + 1 := ⟨fuel - 1, by omega⟩
    have hnext : (r.newChain best).getBlockID (Block.number best + 1) = .error .notFound := by
      apply hi.getBlockID_of_lt hb
      rw [UInt32.lt_iff_toNat_lt, UInt32.toNat_add]
      simp only [UInt32.reduceToNat]
      omega
    exact readLoop_fails hb (UInt32.lt_irrefl _)
      (by rw [hhas, (hT _ _).mpr ⟨.self hb, rfl⟩]; simp) hnext
  | @parent h s hs h0 hpa ih =>
    -- every block strictly above the best block on the way down is above its number
    have hle := hi.number_le hpa
    have hpn := hi.number_parent hs h0
    obtain ⟨fuel, rfl⟩ : ∃ f, fuel = f + 1 := ⟨fuel - 1, by omega⟩
    rw [readLoop_pop hs (.inl (UInt32.lt_iff_toNat_lt.mpr (by omega)))]
    exact ih (by omega) _

lemma readLoop_of_on_best {q : Bytes32} {sq : BlockSummary} (hq : r.data.lookup q = some sq)
    (hqb : Ancestor r q best) (hne : q ≠ best) (fuel : ℕ) (blocks : List ExtendedBlock) :
    ∃ next sn, readLoop r (r.newChain best) (Block.number best) (fuel + 1) q blocks =
        (.ok (blocks ++ [⟨next, false⟩]), next) ∧
      Ancestor r next best ∧ (Block.number q).toNat + 1 = (Block.number next).toNat ∧
      r.data.lookup next = some sn ∧ Block.number next ≠ 0 ∧ sn.header.parentID = q := by
  obtain ⟨trie, hT, hget, hhas⟩ := hi.read hb
  have hlt := hi.number_lt_of_ne hqb hne
  have hsucc : (Block.number q + 1).toNat = (Block.number q).toNat + 1 := by
    rw [UInt32.toNat_add]
    simp only [UInt32.reduceToNat]
    have := UInt32.toNat_lt (Block.number best)
    omega
  obtain ⟨next, hnb, hnn⟩ := hi.exists_ancestor _ best rfl (by simp [hb]) (Block.number q + 1)
    (UInt32.le_iff_toNat_le.mpr (by omega))
  obtain ⟨sn, hsn⟩ := Option.isSome_iff_exists.mp hnb.stored
  have hn0 : Block.number next ≠ 0 := fun h0 => by
    rw [hnn] at h0
    have := congrArg UInt32.toNat h0
    rw [hsucc] at this
    simp at this
  -- the next block's parent is the best chain's block at this number, that is `q`
  have hparent : sn.header.parentID = q := by
    refine hi.ancestor_unique hb (hi.ancestor_parent hnb hsn hn0) hqb ?_
    apply UInt32.toNat_inj.mp
    have := hi.number_parent hsn hn0
    rw [hnn, hsucc] at this
    omega
  refine ⟨next, sn, readLoop_push hq
    (fun hgt => by have := UInt32.lt_iff_toNat_lt.mp hgt; omega)
    (by rw [hhas, (hT _ _).mpr ⟨hqb, rfl⟩]; simp)
    ((hi.getBlockID_eq_ok_iff hb _ _).mpr ⟨hnb, hnn⟩) hsn, hnb, by rw [hnn, hsucc], hsn, hn0,
    hparent⟩

lemma readLoop_of_not_ancestor (hzero : r.countAt 0 = 1) {p : Bytes32} {l : List Bytes32}
    (hl : Lineage r p l) (hnot : ¬ Ancestor r best p) {fuel : ℕ}
    (hfuel : (Block.number p).toNat < fuel) (blocks : List ExtendedBlock) :
    ∃ events next l', readLoop r (r.newChain best) (Block.number best) fuel p blocks =
        (.ok (blocks ++ events), next) ∧
      replay events l = some l' ∧ Lineage r next l' ∧ Ancestor r next best := by
  obtain ⟨trie, hT, hget, hhas⟩ := hi.read hb
  induction hl generalizing fuel blocks with
  | @root q sq hq h0 =>
    -- the root is the best chain's block numbered zero
    obtain ⟨g, hg, hg0⟩ := hi.exists_ancestor _ best rfl (by simp [hb]) 0 UInt32.zero_le
    obtain ⟨sg, hsg⟩ := Option.isSome_iff_exists.mp hg.stored
    have hqg : q = g := hi.eq_of_number_eq_zero hzero hq hsg h0 hg0
    subst hqg
    obtain ⟨fuel, rfl⟩ : ∃ f, fuel = f + 1 := ⟨fuel - 1, by omega⟩
    obtain ⟨next, sn, hread, hnb, -, hsn, hn0, hparent⟩ :=
      readLoop_of_on_best hi hb hq hg (fun he => hnot (he ▸ .self hq)) fuel blocks
    exact ⟨[⟨next, false⟩], next, _, hread, rfl, .cons hsn hn0 (by rw [hparent]; exact .root hq h0), hnb⟩
  | @cons q sq lq hq h0 hlq ih =>
    obtain ⟨fuel, rfl⟩ : ∃ f, fuel = f + 1 := ⟨fuel - 1, by omega⟩
    by_cases hqb : Ancestor r q best
    · obtain ⟨next, sn, hread, hnb, -, hsn, hn0, hparent⟩ :=
        readLoop_of_on_best hi hb hq hqb (fun he => hnot (he ▸ .self hq)) fuel blocks
      exact ⟨[⟨next, false⟩], next, _, hread, rfl, .cons hsn hn0 (by rw [hparent]; exact .cons hq h0 hlq),
        hnb⟩
    · -- off the best chain: left as obsolete, and the walk goes on from the parent
      have hoff : Block.number q > Block.number best ∨
          (r.newChain best).hasBlock q = .ok false := by
        by_cases hgt : Block.number q > Block.number best
        · exact .inl hgt
        · refine .inr ?_
          rw [hhas, decide_eq_false (fun h => hqb ((hT _ _).mp h).1)]
      have hpn := hi.number_parent hq h0
      have hnot' : ¬ Ancestor r best sq.header.parentID := fun h => hnot (.parent hq h0 h)
      obtain ⟨events, next, l', hread, hrep, hl', hnb⟩ :=
        ih hnot' (show (Block.number sq.header.parentID).toNat < fuel by omega)
          (blocks ++ [⟨q, true⟩])
      refine ⟨⟨q, true⟩ :: events, next, l', ?_, ?_, hl', hnb⟩
      · rw [readLoop_pop hq hoff, hread, List.append_assoc, List.singleton_append]
      · simp only [replay, List.getLast?_append, List.getLast?_singleton, Option.some_or,
          if_true, List.dropLast_concat]
        exact hrep

end Walk

/-! ## Reads -/

lemma Indexed.exists_lineage {r : Repository} (hi : Indexed r) :
    ∀ k p s, (Block.number p).toNat = k → r.data.lookup p = some s → ∃ l, Lineage r p l := by
  intro k
  induction k with
  | zero =>
    intro p s hk hp
    exact ⟨[p], .root hp (UInt32.toNat_inj.mp hk)⟩
  | succ k ih =>
    intro p s hk hp
    have h0 : Block.number p ≠ 0 := fun h0 => by rw [h0] at hk; simp at hk
    obtain ⟨sp, hsp⟩ := Option.isSome_iff_exists.mp (hi.parent p s hp h0)
    obtain ⟨l, hl⟩ := ih _ sp (by have := hi.number_parent hp h0; omega) hsp
    exact ⟨l ++ [p], .cons hp h0 hl⟩

/-- When the best block is a proper ancestor of the position, `Read` walks down to it, fails
for want of a block after it, and leaves the position at the best block. The blocks it left
are never reported, and every later `Read` returns no blocks. -/
theorem read_rewind_loses_obsolete (r : Repository) (hr : Built r) (hzero : r.countAt 0 = 1)
    (hcount : ∀ n, r.countAt n < 2 ^ 32) (best position : Bytes32)
    (hanc : Ancestor r best position) (hne : best ≠ position) :
    r.read best position = (.error .notFound, best) ∧ r.read best best = (.ok [], best) := by
  have hi := hr.indexed hzero hcount
  obtain ⟨sb, hb⟩ := Option.isSome_iff_exists.mp hanc.stored
  have hlt := hi.number_lt_of_ne hanc hne
  have hlt' := UInt32.toNat_lt (Block.number position)
  refine ⟨?_, if_pos rfl⟩
  rw [Repository.read, if_neg hne]
  exact readLoop_of_ancestor hi hb (by omega) hanc (by omega) []

/-- A child of `genesisBlock`, numbered one. -/
def childBlock : NewBlock :=
  ⟨⟨⟨[0, 0, 0, 1] ++ List.replicate 28 0, rfl⟩, Bytes32.zero, 10, 0, none⟩, []⟩

theorem read_rewind_loses_obsolete_child :
    ∃ r, Built r ∧ r.countAt 0 = 1 ∧ (∀ n, r.countAt n < 2 ^ 32) ∧
      Ancestor r Bytes32.zero childBlock.header.id ∧ Bytes32.zero ≠ childBlock.header.id ∧
      r.read Bytes32.zero childBlock.header.id = (.error .notFound, Bytes32.zero) := by
  obtain ⟨r₀, hr₀⟩ := newRepository_genesisBlock
  obtain ⟨-, -, hdata₀, hindex₀, -⟩ := newRepository_stores genesisBlock_number hr₀
  have hne : Bytes32.zero ≠ childBlock.header.id := by decide
  have hne' : childBlock.header.id ≠ genesisBlock.header.id := Ne.symm hne
  have hfresh : r₀.data.lookup childBlock.header.id = none := by
    rw [hdata₀, AList.lookup_insert_ne hne']
    rfl
  obtain ⟨r, hadd⟩ :
      ∃ r, r₀.addBlock childBlock (r₀.scanConflicts childBlock.header.number) = .ok r := by
    have hnum : Block.number childBlock.header.id = 1 := rfl
    have h10 : ((1 : UInt32) ≠ 0) = True := by decide
    have h11 : (1 : UInt32) - 1 = 0 := by decide
    unfold addBlock
    rw [show childBlock.header.parentID = genesisBlock.header.id from rfl, hdata₀,
      AList.lookup_insert]
    simp only [indexBlock, hnum, h10, if_true, h11, hindex₀, Function.update_self, bind,
      Except.bind]
    exact ⟨_, rfl⟩
  have hdata := addBlock_data hadd
  have hr : Built r := .addBlock (.genesis genesisBlock_number hr₀) hfresh rfl hadd
  have hzero : r.countAt 0 = 1 := by
    rw [countAt_insert hfresh hdata, (indexed_genesis genesisBlock_number hr₀).2]
    rfl
  have hcount : ∀ n, r.countAt n < 2 ^ 32 := fun n => by
    have hle : r.countAt n ≤ r.data.keys.length := List.countP_le_length
    have hnm : childBlock.header.id ∉ [genesisBlock.header.id] := by simp [hne']
    rw [hdata, hdata₀] at hle
    simp only [AList.keys_insert, AList.keys_empty, List.erase_nil, List.erase_of_not_mem hnm,
      List.length_cons, List.length_nil] at hle
    omega
  have hanc : Ancestor r Bytes32.zero childBlock.header.id :=
    .parent (by rw [hdata, AList.lookup_insert]) (by decide)
      (.self (lookup_of_insert hfresh hdata (by rw [hdata₀]; exact AList.lookup_insert _)))
  exact ⟨r, hr, hzero, hcount, hanc, hne,
    (read_rewind_loses_obsolete r hr hzero hcount _ _ hanc hne).1⟩

lemma read_replays {r : Repository} (hi : Indexed r) (hzero : r.countAt 0 = 1)
    {best position : Bytes32} (hb : (r.data.lookup best).isSome) {l : List Bytes32}
    (hl : Lineage r position l) (hnot : ¬ Ancestor r best position) :
    ∃ events next l', r.read best position = (.ok events, next) ∧ replay events l = some l' ∧
      Lineage r next l' ∧ Ancestor r next best := by
  obtain ⟨sb, hb⟩ := Option.isSome_iff_exists.mp hb
  obtain ⟨sp, hsp⟩ := Option.isSome_iff_exists.mp hl.stored
  have hne : best ≠ position := fun he => hnot (by rw [← he]; exact .self hb)
  rw [Repository.read, if_neg hne]
  simpa using readLoop_of_not_ancestor hi hb hzero hl hnot (Nat.lt_succ_self _) []

lemma positionAfter_best {r : Repository} {best : Bytes32} (n : ℕ) :
    r.positionAfter best n best = best := by
  induction n with
  | zero => rfl
  | succ n ih => rw [Repository.positionAfter, Repository.read, if_pos rfl, ih]

lemma positionAfter_add {r : Repository} {best : Bytes32} (m n : ℕ) (p : Bytes32) :
    r.positionAfter best (m + n) p = r.positionAfter best n (r.positionAfter best m p) := by
  induction m generalizing p with
  | zero => rw [Nat.zero_add]; rfl
  | succ m ih => rw [Nat.succ_add, Repository.positionAfter, ih, Repository.positionAfter]

lemma Indexed.positionAfter_of_on_best {r : Repository} (hi : Indexed r) {best : Bytes32}
    {sb : BlockSummary} (hb : r.data.lookup best = some sb) :
    ∀ d q, Ancestor r q best → (Block.number best).toNat - (Block.number q).toNat = d →
      r.positionAfter best d q = best := by
  intro d
  induction d with
  | zero =>
    intro q hq hd
    -- the ancestor at the best block's own number is the best block
    have hle := hi.number_le hq
    exact hi.ancestor_unique hb hq (.self hb) (UInt32.toNat_inj.mp (by omega)) ▸ rfl
  | succ d ih =>
    intro q hq hd
    obtain ⟨sq, hsq⟩ := Option.isSome_iff_exists.mp hq.stored
    have hne : q ≠ best := fun he => by rw [he] at hd; omega
    have hlt' := UInt32.toNat_lt (Block.number q)
    obtain ⟨next, -, hread, hnb, hnn, -⟩ := readLoop_of_on_best hi hb hsq hq hne
      (Block.number q).toNat []
    have hread' : r.read best q = (.ok [⟨next, false⟩], next) := by
      rw [Repository.read, if_neg (Ne.symm hne)]
      exact hread
    rw [Repository.positionAfter, hread']
    exact ih next hnb (by omega)

lemma read_reaches_best {r : Repository} (hi : Indexed r) (hzero : r.countAt 0 = 1)
    {best position : Bytes32} (hb : (r.data.lookup best).isSome)
    (hp : (r.data.lookup position).isSome) :
    r.positionAfter best ((Block.number best).toNat + 1) position = best := by
  obtain ⟨sb, hb⟩ := Option.isSome_iff_exists.mp hb
  obtain ⟨sp, hsp⟩ := Option.isSome_iff_exists.mp hp
  have hlt := UInt32.toNat_lt (Block.number position)
  rw [Nat.add_comm, positionAfter_add 1, Repository.positionAfter, Repository.positionAfter]
  by_cases hanc : Ancestor r best position
  · -- the first read rewinds to the best block, or stays there
    by_cases hne : best = position
    · rw [Repository.read, if_pos hne, ← hne, positionAfter_best]
    · rw [Repository.read, if_neg hne,
        readLoop_of_ancestor hi hb (by have := hi.number_lt_of_ne hanc hne; omega) hanc
          (by omega) [], positionAfter_best]
  · obtain ⟨l, hl⟩ := hi.exists_lineage _ position sp rfl hsp
    obtain ⟨events, next, -, hread, -, -, hnb⟩ := read_replays hi hzero (by simp [hb]) hl hanc
    rw [hread]
    have hle := hi.number_le hnb
    -- the rest of the reads climb the best chain from the block the first one reached
    rw [show (Block.number best).toNat =
        ((Block.number best).toNat - (Block.number next).toNat) + (Block.number next).toNat by
          omega, positionAfter_add, hi.positionAfter_of_on_best hb _ next hnb rfl,
      positionAfter_best]

end AuthorityBlock.Chain
