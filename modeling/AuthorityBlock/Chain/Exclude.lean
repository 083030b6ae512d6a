import AuthorityBlock.Chain.BlockReader

/-! `Chain.Exclude` of `chain/chain.go`: the blocks of one chain that are not on another.

The walk goes down the chain from its head, by number, and stops at the genesis or at the
first block it finds on the other chain; the blocks it passed are the result, reversed into
ascending order. The test against the other chain takes three forms, by the block's number
against the other head's: above it the block cannot be there, at it only the other head is,
below it the other chain is asked.

Stopping at the first common block is right because in a tree every ancestor of a common
block is common (`Indexed.ancestor_of_common`): the walk has then met all the blocks of the
chain that are not on the other one (`excludeLoop_spec`). -/

namespace AuthorityBlock.Chain

open Repository

/-- The loop of `Exclude`, from block `id` of `c` down, with the IDs collected so far, newest
first. `none` when the walk has not ended within `fuel` steps. -/
def excludeLoop (c other : Chain) :
    ℕ → Bytes32 → List Bytes32 → Option (Except ChainError (List Bytes32))
  | 0, _, _ => none
  | fuel + 1, id, ids =>
    let n := Block.number id
    -- the walk goes on with the block of `c` one below
    let next (ids : List Bytes32) :=
      match c.getBlockID (n - 1) with
      | .error err => some (.error err)
      | .ok id => excludeLoop c other fuel id ids
    if n = 0 then some (.ok ids)
    else if n > Block.number other.headID then next (ids ++ [id])
    else if n = Block.number other.headID then
      if id = other.headID then some (.ok ids) else next (ids ++ [id])
    else
      match other.hasBlock id with
      | .error err => some (.error err)
      | .ok true => some (.ok ids)
      | .ok false => next (ids ++ [id])

/-- `Exclude`: the IDs of the blocks of `c` that are not on `other`, in ascending order. The
walk takes one step per number of `c`'s head; `none` when it takes more. -/
def exclude (c other : Chain) : Option (Except ChainError (List Bytes32)) :=
  (excludeLoop c other ((Block.number c.headID).toNat + 1) c.headID []).map
    (Except.map List.reverse)

/-! ### One iteration -/

section Iteration

variable {c other : Chain} {fuel : ℕ} {id : Bytes32} {ids : List Bytes32}

lemma excludeLoop_genesis (h0 : Block.number id = 0) :
    excludeLoop c other (fuel + 1) id ids = some (.ok ids) := by
  simp only [excludeLoop, h0, if_true]

/-- Whether the walk stops at a block not numbered zero: the block is the other head, or one
below it that the other chain has. -/
def StopsAt (other : Chain) (id : Bytes32) : Prop :=
  (Block.number id = Block.number other.headID ∧ id = other.headID) ∨
    (Block.number id < Block.number other.headID ∧ other.hasBlock id = .ok true)

/-- Whether the walk passes a block not numbered zero: above the other head, at its number but
not it, or below it and not on the other chain. -/
def PassesAt (other : Chain) (id : Bytes32) : Prop :=
  Block.number id > Block.number other.headID ∨
    (Block.number id = Block.number other.headID ∧ id ≠ other.headID) ∨
    (Block.number id < Block.number other.headID ∧ other.hasBlock id = .ok false)

lemma excludeLoop_stop (h0 : Block.number id ≠ 0) (hs : StopsAt other id) :
    excludeLoop c other (fuel + 1) id ids = some (.ok ids) := by
  simp only [excludeLoop, if_neg h0]
  rcases hs with ⟨heq, hid⟩ | ⟨hlt, hhas⟩
  · rw [if_neg (by rw [heq]; exact UInt32.lt_irrefl _), if_pos heq, if_pos hid]
  · rw [if_neg (UInt32.not_lt.mpr (UInt32.le_of_lt hlt)), if_neg (UInt32.ne_of_lt hlt), hhas]

lemma excludeLoop_pass (h0 : Block.number id ≠ 0) (hp : PassesAt other id) {id' : Bytes32}
    (hnext : c.getBlockID (Block.number id - 1) = .ok id') :
    excludeLoop c other (fuel + 1) id ids = excludeLoop c other fuel id' (ids ++ [id]) := by
  simp only [excludeLoop, if_neg h0]
  rcases hp with hgt | ⟨heq, hid⟩ | ⟨hlt, hhas⟩
  · rw [if_pos hgt, hnext]
  · rw [if_neg (by rw [heq]; exact UInt32.lt_irrefl _), if_pos heq, if_neg hid, hnext]
  · rw [if_neg (UInt32.not_lt.mpr (UInt32.le_of_lt hlt)), if_neg (UInt32.ne_of_lt hlt), hhas,
      hnext]

end Iteration

/-! ### Common blocks in a tree -/

section Common

variable {r : Repository}

lemma Ancestor.trans {a b h : Bytes32} (hab : Ancestor r a b) (hbh : Ancestor r b h) :
    Ancestor r a h := by
  induction hbh with
  | self _ => exact hab
  | parent hs h0 _ ih => exact .parent hs h0 ih

variable (hi : Indexed r)
include hi

lemma Indexed.ancestor_of_common {a b h o : Bytes32} {sh : BlockSummary}
    (hh : r.data.lookup h = some sh) (hah : Ancestor r a h) (hao : Ancestor r a o)
    (hbh : Ancestor r b h) (hle : Block.number b ≤ Block.number a) : Ancestor r b o := by
  obtain ⟨b', hb'a, hb'n⟩ := hi.exists_ancestor _ a rfl hah.stored _ hle
  have hb' : b' = b := hi.ancestor_unique hh (hb'a.trans hah) hbh hb'n
  subst hb'
  exact hb'a.trans hao

lemma Indexed.stops_or_passes {o : Bytes32} {so : BlockSummary} (ho : r.data.lookup o = some so)
    (a : Bytes32) :
    (StopsAt (r.newChain o) a ∧ Ancestor r a o) ∨ (PassesAt (r.newChain o) a ∧ ¬ Ancestor r a o) := by
  obtain ⟨has, hhas, hiff⟩ := hi.hasBlock_iff ho a
  have hnum : ∀ (x : Bytes32), Ancestor r x o → (Block.number x).toNat ≤ (Block.number o).toNat :=
    fun x hx => hi.number_le hx
  rcases Nat.lt_trichotomy (Block.number a).toNat (Block.number o).toNat with hlt | heq | hgt
  · -- below the other head the other chain is asked
    replace hlt := UInt32.lt_iff_toNat_lt.mpr hlt
    cases has with
    | true => exact .inl ⟨.inr ⟨hlt, hhas⟩, hiff.mp rfl⟩
    | false =>
      exact .inr ⟨.inr (.inr ⟨hlt, hhas⟩), fun ha => Bool.false_ne_true (hiff.mpr ha)⟩
  · -- at the other head's number only the other head is on the other chain
    replace heq := UInt32.toNat_inj.mp heq
    by_cases hid : a = o
    · subst hid
      exact .inl ⟨.inl ⟨rfl, rfl⟩, .self ho⟩
    · exact .inr ⟨.inr (.inl ⟨heq, hid⟩),
        fun ha => hid (hi.ancestor_unique ho ha (.self ho) heq)⟩
  · -- above it no block is on the other chain
    refine .inr ⟨.inl (UInt32.lt_iff_toNat_lt.mpr hgt), fun ha => ?_⟩
    have := hnum a ha
    omega

end Common

/-! ### The walk -/

section Walk

variable {r : Repository} (hi : Indexed r) {cH oH : Bytes32} {sc so : BlockSummary}
  (hc : r.data.lookup cH = some sc) (ho : r.data.lookup oH = some so)
include hi hc ho

lemma excludeLoop_spec :
    ∀ (k : ℕ) (a : Bytes32) (ids : List Bytes32) (fuel : ℕ), (Block.number a).toNat = k →
      k < fuel → Ancestor r a cH →
      (∀ b, b ∈ ids ↔ Ancestor r b cH ∧ (Block.number a).toNat < (Block.number b).toNat) →
      (∀ b ∈ ids, ¬ Ancestor r b oH) →
      ids.Pairwise (fun x y => (Block.number y).toNat < (Block.number x).toNat) →
      ∃ L, excludeLoop (r.newChain cH) (r.newChain oH) fuel a ids = some (.ok L) ∧
        (∀ b, b ∈ L ↔ Ancestor r b cH ∧ Block.number b ≠ 0 ∧ ¬ Ancestor r b oH) ∧
        L.Pairwise (fun x y => (Block.number y).toNat < (Block.number x).toNat) := by
  intro k
  induction k with
  | zero =>
    -- the genesis ends the walk
    intro a ids fuel hk hfuel _ hmem hoff hsorted
    obtain ⟨fuel, rfl⟩ : ∃ f, fuel = f + 1 := ⟨fuel - 1, by omega⟩
    have h0 : Block.number a = 0 := UInt32.toNat_inj.mp hk
    refine ⟨ids, excludeLoop_genesis h0, fun b => ?_, hsorted⟩
    rw [hmem b, hk]
    constructor
    · rintro ⟨hb, hlt⟩
      exact ⟨hb, fun hb0 => by rw [hb0] at hlt; simp at hlt, hoff b ((hmem b).mpr ⟨hb, by omega⟩)⟩
    · rintro ⟨hb, hb0, -⟩
      exact ⟨hb, Nat.pos_of_ne_zero fun h => hb0 (UInt32.toNat_inj.mp h)⟩
  | succ k ih =>
    intro a ids fuel hk hfuel ha hmem hoff hsorted
    obtain ⟨fuel, rfl⟩ : ∃ f, fuel = f + 1 := ⟨fuel - 1, by omega⟩
    have h0 : Block.number a ≠ 0 := fun h => by rw [h] at hk; simp at hk
    rcases hi.stops_or_passes ho a with ⟨hs, hao⟩ | ⟨hp, hao⟩
    · -- a common block: every block below it is on `o` too
      refine ⟨ids, excludeLoop_stop h0 hs, fun b => ?_, hsorted⟩
      rw [hmem b]
      constructor
      · rintro ⟨hb, hlt⟩
        exact ⟨hb, fun hb0 => by rw [hb0] at hlt; simp at hlt,
          hoff b ((hmem b).mpr ⟨hb, hlt⟩)⟩
      · rintro ⟨hb, -, hbo⟩
        refine ⟨hb, Nat.lt_of_not_le fun hle => hbo ?_⟩
        exact hi.ancestor_of_common hc ha hao hb (UInt32.le_iff_toNat_le.mpr hle)
    · -- a block off `o`: it is collected and the walk goes to the block below
      have hpred : (Block.number a - 1).toNat = k := by
        rw [UInt32.toNat_sub_of_le _ _ (UInt32.le_iff_toNat_le.mpr (by rw [hk]; simp))]
        simp only [UInt32.reduceToNat]
        omega
      obtain ⟨a', ha', ha'n⟩ := hi.exists_ancestor _ cH rfl (by simp [hc]) (Block.number a - 1)
        (UInt32.le_iff_toNat_le.mpr (by have := hi.number_le ha; omega))
      have hnext := (hi.getBlockID_eq_ok_iff hc _ a').mpr ⟨ha', ha'n⟩
      rw [excludeLoop_pass h0 hp hnext]
      have hk' : (Block.number a').toNat = k := by rw [ha'n, hpred]
      refine ih a' (ids ++ [a]) fuel hk' (by omega) ha' (fun b => ?_) (fun b hb => ?_) ?_
      · rw [List.mem_append, List.mem_singleton, hmem b, hk']
        constructor
        · rintro (⟨hb, hlt⟩ | rfl)
          · exact ⟨hb, by omega⟩
          · exact ⟨ha, by omega⟩
        · rintro ⟨hb, hlt⟩
          by_cases hba : Block.number b = Block.number a
          · exact .inr (hi.ancestor_unique hc hb ha hba)
          · have : (Block.number b).toNat ≠ (Block.number a).toNat :=
              fun h => hba (UInt32.toNat_inj.mp h)
            exact .inl ⟨hb, by omega⟩
      · rcases List.mem_append.mp hb with hb | hb
        · exact hoff b hb
        · rw [List.mem_singleton.mp hb]
          exact hao
      · rw [List.pairwise_append]
        refine ⟨hsorted, List.pairwise_singleton _ _, fun x hx y hy => ?_⟩
        rw [List.mem_singleton.mp hy]
        exact ((hmem x).mp hx).2

end Walk

theorem exclude_blocks_off_other {r : Repository} (hi : Indexed r) {cH oH : Bytes32}
    {sc so : BlockSummary} (hc : r.data.lookup cH = some sc) (ho : r.data.lookup oH = some so) :
    ∃ L, (r.newChain cH).exclude (r.newChain oH) = some (.ok L) ∧
      (∀ b, b ∈ L ↔ Ancestor r b cH ∧ Block.number b ≠ 0 ∧ ¬ Ancestor r b oH) ∧
      L.Pairwise (fun x y => Block.number x < Block.number y) ∧ L.Nodup := by
  -- the walk starts at the head with nothing collected
  have hnone : ∀ b, b ∈ ([] : List Bytes32) ↔
      Ancestor r b cH ∧ (Block.number cH).toNat < (Block.number b).toNat := fun b =>
    ⟨fun h => absurd h List.not_mem_nil, fun ⟨hb, hlt⟩ => absurd (hi.number_le hb) (by omega)⟩
  obtain ⟨L, hloop, hmem, hsorted⟩ := excludeLoop_spec hi hc ho _ cH [] _ rfl
    (Nat.lt_succ_self _) (.self hc) hnone (fun b hb => absurd hb List.not_mem_nil) List.Pairwise.nil
  have hasc : L.reverse.Pairwise (fun x y => Block.number x < Block.number y) := by
    rw [List.pairwise_reverse]
    exact hsorted.imp fun h => UInt32.lt_iff_toNat_lt.mpr h
  have hnodup : L.reverse.Nodup := by
    change L.reverse.Pairwise (fun x y : Bytes32 => x ≠ y)
    refine hasc.imp ?_
    rintro x _ h rfl
    exact UInt32.lt_irrefl _ h
  refine ⟨L.reverse, ?_, fun b => by rw [List.mem_reverse, hmem b], hasc, hnodup⟩
  rw [exclude, show (r.newChain cH).headID = cH from rfl, hloop]
  rfl

/-- On the two forks, the blocks of the chain of `3b` off the chain of `2a` are `2b` and `3b`,
in ascending order: block `2b` is off the chain of `2a`, and block 1, where the walk stops,
is on it. -/
theorem exclude_blocks_off_other_fork :
    ∃ (r : Repository) (sc so : BlockSummary), Indexed r ∧
      r.data.lookup block3b.header.id = some sc ∧ r.data.lookup block2a.header.id = some so ∧
      (r.newChain block3b.header.id).exclude (r.newChain block2a.header.id) =
        some (.ok [block2b.header.id, block3b.header.id]) ∧
      ¬ Ancestor r block2b.header.id block2a.header.id ∧
      Ancestor r block1.header.id block2a.header.id := by
  obtain ⟨r, hr, hbuilt, hzero, hcount⟩ := forkedRepository_spec
  have hi := hbuilt.indexed hzero hcount
  obtain ⟨sc, hc⟩ := Option.isSome_iff_exists.mp (forkedRepository_eval hr
    (f := fun r => (r.data.lookup block3b.header.id).isSome) (by decide +kernel))
  obtain ⟨so, ho⟩ := Option.isSome_iff_exists.mp (forkedRepository_eval hr
    (f := fun r => (r.data.lookup block2a.header.id).isSome) (by decide +kernel))
  obtain ⟨L, hL, hmem, -, -⟩ := exclude_blocks_off_other hi hc ho
  have hexclude : (r.newChain block3b.header.id).exclude (r.newChain block2a.header.id) =
      some (.ok [block2b.header.id, block3b.header.id]) :=
    forkedRepository_eval hr
      (f := fun r => (r.newChain block3b.header.id).exclude (r.newChain block2a.header.id))
      (by decide +kernel)
  obtain rfl : L = [block2b.header.id, block3b.header.id] := by
    rw [hL, Option.some.injEq, Except.ok.injEq] at hexclude
    exact hexclude
  -- block 1 is on the chain of 3b and was not collected, so it is on the chain of 2a
  have h1 : Ancestor r block1.header.id block3b.header.id :=
    ((hi.getBlockID_eq_ok_iff hc 1 _).mp (forkedRepository_eval hr
      (f := fun r => (r.newChain block3b.header.id).getBlockID 1) (by decide +kernel))).1
  have h1o : Ancestor r block1.header.id block2a.header.id := by
    by_contra hno
    have h1L := (hmem block1.header.id).mpr ⟨h1, by decide, hno⟩
    revert h1L
    decide
  exact ⟨r, sc, so, hi, hc, ho, hexclude, ((hmem _).mp (by simp)).2.2, h1o⟩

end AuthorityBlock.Chain
