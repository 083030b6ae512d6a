import AuthorityBlock.Chain.Repository

/-! The chains of a repository read the block tree right. In a repository that
`NewRepository` and `AddBlock` build, each block's version of the index trie maps every number
to the block's ancestor there (`Indexed`), as long as no block number wraps around and fewer
than `2 ^ 32` blocks share a height. A chain then finds by number exactly the ancestors of its
head, has exactly those blocks, and finds a transaction in the one block of the chain that
contains it. -/

namespace AuthorityBlock.Chain

open Repository

/-- `a` is `h` or an ancestor of `h`: parent links are followed from a stored block down to a
block numbered zero, where the tree is rooted. -/
inductive Ancestor (r : Repository) (a : Bytes32) : Bytes32 → Prop
  | self {s : BlockSummary} : r.data.lookup a = some s → Ancestor r a a
  | parent {h : Bytes32} {s : BlockSummary} : r.data.lookup h = some s → Block.number h ≠ 0 →
      Ancestor r a s.header.parentID → Ancestor r a h

/-- The repositories that `NewRepository` and then `AddBlock` build: each block is new, is
given as conflicts the number of blocks stored at its height, and has an ID that carries its
number, as `Header.ID` writes it. -/
inductive Built : Repository → Prop
  | genesis {genesis : NewBlock} {r : Repository} :
      Block.number genesis.header.id = genesis.header.number →
      newRepository genesis = .ok r → Built r
  | addBlock {r r' : Repository} {newBlock : NewBlock} : Built r →
      r.data.lookup newBlock.header.id = none →
      Block.number newBlock.header.id = newBlock.header.number →
      r.addBlock newBlock (r.scanConflicts newBlock.header.number) = .ok r' → Built r'

/-- A run of `AddBlock` calls as `Built` describes them: each block new, with an ID that
carries its number, given as conflicts the number of blocks stored at its height; `none` where
a block breaks that or `AddBlock` fails. -/
def Repository.addBlocks (r : Repository) : List NewBlock → Option Repository
  | [] => some r
  | b :: bs =>
    if (r.data.lookup b.header.id).isNone ∧ Block.number b.header.id = b.header.number then
      match r.addBlock b (r.scanConflicts b.header.number) with
      | .ok r' => r'.addBlocks bs
      | .error _ => none
    else none

lemma Built.addBlocks {r r' : Repository} (hr : Built r) {bs : List NewBlock}
    (h : r.addBlocks bs = some r') : Built r' := by
  induction bs generalizing r with
  | nil =>
    cases h
    exact hr
  | cons b bs ih =>
    unfold Repository.addBlocks at h
    split_ifs at h with hb
    split at h
    · next r₁ hadd => exact ih (.addBlock hr (Option.isNone_iff_eq_none.mp hb.1) hb.2 hadd) h
    · cases h

/-- What the stores of a built repository keep, while no number wraps around. -/
structure Indexed (r : Repository) : Prop where
  number_eq : ∀ h s, r.data.lookup h = some s → Block.number h = s.header.number
  parent : ∀ h s, r.data.lookup h = some s → Block.number h ≠ 0 →
    (r.data.lookup s.header.parentID).isSome
  /-- the version of each block maps every number to the block's ancestor there -/
  index : ∀ h s, r.data.lookup h = some s → ∃ trie,
    r.index (Block.number h, s.conflicts) = some trie ∧
      ∀ n a, trie n = some a ↔ Ancestor r a h ∧ Block.number a = n
  /-- blocks of one number have distinct conflicts, below the number of blocks there -/
  conflicts_lt : ∀ h s, r.data.lookup h = some s → s.conflicts.toNat < r.countAt (Block.number h)
  conflicts_inj : ∀ h₁ s₁ h₂ s₂, r.data.lookup h₁ = some s₁ → r.data.lookup h₂ = some s₂ →
    Block.number h₁ = Block.number h₂ → s₁.conflicts = s₂.conflicts → h₁ = h₂
  tx_entry : ∀ t b, (r.txIndexer t).lookup b = (r.data.lookup b).bind fun s => lastMeta 0 s.txs t
  tx_key : ∀ t h s, r.data.lookup h = some s → (∃ tx ∈ s.txs, tx.1 = t) → r.txKeys t = true

/-! ## Ancestry -/

section Ancestry

variable {r : Repository} {a h : Bytes32}

lemma Ancestor.stored (ha : Ancestor r a h) : (r.data.lookup a).isSome := by
  induction ha with
  | self hs => simp [hs]
  | parent _ _ _ ih => exact ih

lemma Ancestor.head_stored (ha : Ancestor r a h) : (r.data.lookup h).isSome := by
  cases ha with
  | self hs => simp [hs]
  | parent hs _ _ => simp [hs]

omit r a h in
lemma toNat_add_one_of_ne_zero {m n : UInt32} (hn : n = m + 1) (h0 : n ≠ 0) :
    m.toNat + 1 = n.toNat := by
  have hlt := UInt32.toNat_lt m
  have hne : m.toNat + 1 ≠ 2 ^ 32 := fun heq => by
    apply h0
    rw [hn]
    apply UInt32.toNat_inj.mp
    rw [UInt32.toNat_add]
    simp [heq]
  rw [hn, UInt32.toNat_add]
  simp only [UInt32.reduceToNat]
  omega

lemma Indexed.number_parent (hi : Indexed r) {s : BlockSummary} (hs : r.data.lookup h = some s)
    (h0 : Block.number h ≠ 0) :
    (Block.number s.header.parentID).toNat + 1 = (Block.number h).toNat :=
  toNat_add_one_of_ne_zero (hi.number_eq h s hs) h0

lemma Indexed.number_le (hi : Indexed r) (ha : Ancestor r a h) :
    (Block.number a).toNat ≤ (Block.number h).toNat := by
  induction ha with
  | self _ => exact le_rfl
  | parent hs h0 _ ih =>
    have := hi.number_parent hs h0
    omega

lemma Indexed.exists_ancestor (hi : Indexed r) :
    ∀ k h, (Block.number h).toNat = k → (r.data.lookup h).isSome →
      ∀ n, n ≤ Block.number h → ∃ a, Ancestor r a h ∧ Block.number a = n := by
  intro k
  induction k with
  | zero =>
    intro h hk hh n hn
    obtain ⟨s, hs⟩ := Option.isSome_iff_exists.mp hh
    refine ⟨h, .self hs, ?_⟩
    rw [UInt32.le_iff_toNat_le] at hn
    exact UInt32.toNat_inj.mp (by omega)
  | succ k ih =>
    intro h hk hh n hn
    obtain ⟨s, hs⟩ := Option.isSome_iff_exists.mp hh
    by_cases hnh : n = Block.number h
    · exact ⟨h, .self hs, hnh.symm⟩
    · -- below the block itself, the number is reached from its parent
      have h0 : Block.number h ≠ 0 := fun h0 => by rw [h0] at hk; simp at hk
      have hp := hi.number_parent hs h0
      have hn' : n ≤ Block.number s.header.parentID := by
        rw [UInt32.le_iff_toNat_le] at hn ⊢
        have : n.toNat ≠ (Block.number h).toNat := fun heq => hnh (UInt32.toNat_inj.mp heq)
        omega
      obtain ⟨a, ha, han⟩ := ih _ (by omega) (hi.parent h s hs h0) n hn'
      exact ⟨a, .parent hs h0 ha, han⟩

lemma Ancestor.eq_of_number_eq_zero (ha : Ancestor r a h) (h0 : Block.number h = 0) : a = h := by
  cases ha with
  | self _ => rfl
  | parent _ hne _ => exact absurd h0 hne

lemma Ancestor.mono {r' : Repository}
    (hmono : ∀ z sz, r.data.lookup z = some sz → r'.data.lookup z = some sz)
    (ha : Ancestor r a h) : Ancestor r' a h := by
  induction ha with
  | self hs => exact .self (hmono _ _ hs)
  | parent hs h0 _ ih => exact .parent (hmono _ _ hs) h0 ih

end Ancestry

/-! ## One block added -/

section Insert

variable {r r' : Repository} {x : Bytes32} {v : BlockSummary}
  (hx : r.data.lookup x = none) (hdata : r'.data = r.data.insert x v)
include hx hdata

lemma lookup_of_insert {z : Bytes32} {sz : BlockSummary} (hz : r.data.lookup z = some sz) :
    r'.data.lookup z = some sz := by
  have hzx : z ≠ x := by rintro rfl; rw [hx] at hz; cases hz
  rw [hdata, AList.lookup_insert_ne hzx, hz]

lemma lookup_insert_cases {z : Bytes32} {sz : BlockSummary} (hz : r'.data.lookup z = some sz) :
    (z = x ∧ sz = v) ∨ (z ≠ x ∧ r.data.lookup z = some sz) := by
  rw [hdata] at hz
  by_cases hzx : z = x
  · subst hzx
    rw [AList.lookup_insert, Option.some_inj] at hz
    exact .inl ⟨rfl, hz.symm⟩
  · rw [AList.lookup_insert_ne hzx] at hz
    exact .inr ⟨hzx, hz⟩

lemma countAt_insert (n : UInt32) :
    r'.countAt n = r.countAt n + if Block.number x = n then 1 else 0 := by
  have hnot : x ∉ r.data.keys := fun hmem => by
    rw [← AList.mem_keys, ← AList.lookup_isSome, hx] at hmem
    cases hmem
  simp only [countAt, hdata, AList.keys_insert, List.erase_of_not_mem hnot, List.countP_cons]
  by_cases hn : Block.number x = n <;> simp [hn]

lemma ancestor_insert_iff (hi : Indexed r) {a h : Bytes32} (hh : (r.data.lookup h).isSome) :
    Ancestor r' a h ↔ Ancestor r a h := by
  refine ⟨fun ha => ?_, Ancestor.mono fun z sz hz => lookup_of_insert hx hdata hz⟩
  induction ha with
  | self _ =>
    obtain ⟨s, hs⟩ := Option.isSome_iff_exists.mp hh
    exact .self hs
  | @parent h s hs h0 _ ih =>
    obtain ⟨s₀, hs₀⟩ := Option.isSome_iff_exists.mp hh
    have hss : s₀ = s := by
      rw [lookup_of_insert hx hdata hs₀, Option.some_inj] at hs
      exact hs
    subst hss
    exact .parent hs₀ h0 (ih (hi.parent h s₀ hs₀ h0))

lemma ancestor_insert_self_iff (hi : Indexed r) (hx0 : Block.number x ≠ 0)
    (hp : (r.data.lookup v.header.parentID).isSome) {a : Bytes32} :
    Ancestor r' a x ↔ a = x ∨ Ancestor r a v.header.parentID := by
  have hxv : r'.data.lookup x = some v := by rw [hdata, AList.lookup_insert]
  constructor
  · intro ha
    cases ha with
    | self _ => exact .inl rfl
    | parent hs _ hpa =>
      rw [hxv, Option.some_inj] at hs
      subst hs
      exact .inr ((ancestor_insert_iff hx hdata hi hp).mp hpa)
  · rintro (rfl | hpa)
    · exact .self hxv
    · exact .parent hxv hx0 ((ancestor_insert_iff hx hdata hi hp).mpr hpa)

end Insert

lemma addBlock_data {r r' : Repository} {b : NewBlock} {k : UInt32}
    (hadd : r.addBlock b k = .ok r') : r'.data = r.data.insert b.header.id ⟨b.header, b.txs, k⟩ := by
  obtain ⟨sp, r₁, -, hidx, rfl⟩ := r.addBlock_eq_ok hadd
  obtain ⟨trie, -, rfl⟩ := r.indexBlock_eq_ok hidx
  simp [saveBlock]

lemma addBlock_stores {r r' : Repository} {b : NewBlock} {k : UInt32}
    (hadd : r.addBlock b k = .ok r') (h0 : Block.number b.header.id ≠ 0) :
    ∃ sp trie, r.data.lookup b.header.parentID = some sp ∧
      r.index (Block.number b.header.id - 1, sp.conflicts) = some trie ∧
      r'.data = r.data.insert b.header.id ⟨b.header, b.txs, k⟩ ∧
      r'.index = Function.update r.index (Block.number b.header.id, k)
        (some (Function.update trie (Block.number b.header.id) (some b.header.id))) ∧
      (∀ t, r'.txKeys t = (r.txKeys t || b.txs.any fun tx => tx.1 = t)) ∧
      ∀ t z, (r'.txIndexer t).lookup z =
        if z = b.header.id then (lastMeta 0 b.txs t).or ((r.txIndexer t).lookup z)
        else (r.txIndexer t).lookup z := by
  have hdata := addBlock_data hadd
  obtain ⟨sp, r₁, hp, hidx, rfl⟩ := r.addBlock_eq_ok hadd
  obtain ⟨trie, hbase, rfl⟩ := r.indexBlock_eq_ok hidx
  rw [if_pos h0] at hbase
  refine ⟨sp, trie, hp, hbase, hdata, by simp [saveBlock], fun t => ?_, fun t z => ?_⟩
  · exact putTxs_txKeys _ _ _ _ t
  · exact putTxs_txIndexer _ _ _ _ t z

lemma Indexed.addBlock {r r' : Repository} (hi : Indexed r) {b : NewBlock}
    (hfresh : r.data.lookup b.header.id = none)
    (hnum : Block.number b.header.id = b.header.number) (h0 : Block.number b.header.id ≠ 0)
    (hcnt : r.countAt (Block.number b.header.id) < 2 ^ 32)
    (hadd : r.addBlock b (r.scanConflicts b.header.number) = .ok r') : Indexed r' := by
  obtain ⟨sp, trie, hp, hbase, hdata, hindex, hkeys, hentries⟩ := addBlock_stores hadd h0
  have hpn := toNat_add_one_of_ne_zero hnum h0
  have hpnum : Block.number b.header.parentID = Block.number b.header.id - 1 := by
    rw [hnum, Block.Header.number, UInt32.add_sub_cancel]
  -- the version the block is indexed from is its parent's
  obtain ⟨trieP, htrieP, hP⟩ := hi.index _ sp hp
  rw [hpnum, hbase, Option.some_inj] at htrieP
  subst htrieP
  generalize hv : (⟨b.header, b.txs, r.scanConflicts b.header.number⟩ : BlockSummary) = v at hdata
  have hvp : v.header.parentID = b.header.parentID := by rw [← hv]
  have hvtxs : v.txs = b.txs := by rw [← hv]
  have hkn : (r.scanConflicts b.header.number).toNat = r.countAt (Block.number b.header.id) := by
    rw [scanConflicts, ← hnum, Nat.toUInt32_eq, UInt32.toNat_ofNat', Nat.mod_eq_of_lt hcnt]
  have hvk : v.conflicts = r.scanConflicts b.header.number := by rw [← hv]
  generalize b.header.id = x at *
  generalize r.scanConflicts b.header.number = k at *
  have hp' : (r.data.lookup v.header.parentID).isSome := by
    rw [hvp]
    simp [hp]
  -- an old block of the new number has smaller conflicts than the new one
  have hold : ∀ z s, r.data.lookup z = some s → Block.number z = Block.number x →
      s.conflicts ≠ k := fun z s hz hzn hc => by
    have := hi.conflicts_lt z s hz
    rw [hzn, hc, hkn] at this
    exact lt_irrefl _ this
  refine ⟨fun z s hz => ?_, fun z s hz hz0 => ?_, fun z s hz => ?_, fun z s hz => ?_,
    fun z₁ s₁ z₂ s₂ hz₁ hz₂ hzn hzc => ?_, fun t z => ?_, fun t z s hz htx => ?_⟩
  · rcases lookup_insert_cases hfresh hdata hz with ⟨rfl, rfl⟩ | ⟨-, hz⟩
    · rw [hnum, ← hv]
    · exact hi.number_eq z s hz
  · rcases lookup_insert_cases hfresh hdata hz with ⟨rfl, rfl⟩ | ⟨-, hz⟩
    · obtain ⟨sp', hsp'⟩ := Option.isSome_iff_exists.mp hp'
      simp [lookup_of_insert hfresh hdata hsp']
    · obtain ⟨sp', hsp'⟩ := Option.isSome_iff_exists.mp (hi.parent z s hz hz0)
      simp [lookup_of_insert hfresh hdata hsp']
  · rcases lookup_insert_cases hfresh hdata hz with ⟨rfl, rfl⟩ | ⟨hzx, hz⟩
    · -- the new version: the parent's, with the block at its own number
      refine ⟨_, by rw [hindex, hvk, Function.update_self], fun m a => ?_⟩
      rw [ancestor_insert_self_iff hfresh hdata hi h0 hp', hvp]
      by_cases hm : m = Block.number z
      · subst hm
        rw [Function.update_self, Option.some_inj]
        constructor
        · rintro rfl
          exact ⟨.inl rfl, rfl⟩
        · rintro ⟨rfl | hpa, hna⟩
          · rfl
          · have := hi.number_le hpa
            rw [hna] at this
            omega
      · rw [Function.update_of_ne hm, hP]
        constructor
        · rintro ⟨hpa, hna⟩
          exact ⟨.inr hpa, hna⟩
        · rintro ⟨rfl | hpa, hna⟩
          · exact absurd hna.symm hm
          · exact ⟨hpa, hna⟩
    · -- an old version is untouched
      obtain ⟨tz, htz, hTz⟩ := hi.index z s hz
      have hne : (Block.number z, s.conflicts) ≠ (Block.number x, k) := fun he => by
        obtain ⟨hzn, hc⟩ := Prod.mk.inj he
        exact hold z s hz hzn hc
      refine ⟨tz, by rw [hindex, Function.update_of_ne hne, htz], fun m a => ?_⟩
      rw [hTz, ancestor_insert_iff hfresh hdata hi (by simp [hz])]
  · rw [countAt_insert hfresh hdata]
    rcases lookup_insert_cases hfresh hdata hz with ⟨rfl, rfl⟩ | ⟨-, hz⟩
    · rw [hvk, hkn]
      simp
    · have := hi.conflicts_lt z s hz
      omega
  · rcases lookup_insert_cases hfresh hdata hz₁ with ⟨rfl, rfl⟩ | ⟨-, hz₁⟩ <;>
      rcases lookup_insert_cases hfresh hdata hz₂ with ⟨rfl, rfl⟩ | ⟨-, hz₂⟩
    · rfl
    · exact absurd (hzc.symm.trans hvk) (hold z₂ s₂ hz₂ hzn.symm)
    · exact absurd (hzc.trans hvk) (hold z₁ s₁ hz₁ hzn)
    · exact hi.conflicts_inj z₁ s₁ z₂ s₂ hz₁ hz₂ hzn hzc
  · rw [hentries, hdata]
    by_cases hzx : z = x
    · subst hzx
      rw [if_pos rfl, hi.tx_entry, hfresh, AList.lookup_insert]
      simp [hvtxs]
    · rw [if_neg hzx, hi.tx_entry, AList.lookup_insert_ne hzx]
  · rw [hkeys]
    rcases lookup_insert_cases hfresh hdata hz with ⟨rfl, rfl⟩ | ⟨-, hz⟩
    · obtain ⟨tx, hmem, htx⟩ := htx
      rw [hvtxs] at hmem
      simp only [Bool.or_eq_true, List.any_eq_true, decide_eq_true_eq]
      exact .inr ⟨tx, hmem, htx⟩
    · simp [hi.tx_key t z s hz htx]

lemma newRepository_stores {genesis : NewBlock} {r : Repository}
    (hnum : Block.number genesis.header.id = genesis.header.number)
    (h : newRepository genesis = .ok r) :
    genesis.txs = [] ∧ Block.number genesis.header.id = 0 ∧
      r.data = (∅ : AList fun _ : Bytes32 => BlockSummary).insert genesis.header.id
        ⟨genesis.header, [], 0⟩ ∧
      r.index = Function.update (fun _ => none) (0, 0)
        (some (Function.update (fun _ => none) 0 (some genesis.header.id))) ∧
      r.txKeys = (fun _ => false) ∧ r.txIndexer = fun _ => ∅ := by
  unfold newRepository at h
  by_cases hn : genesis.header.number = 0
  · by_cases htxs : genesis.txs = []
    · rw [if_neg (not_not.mpr hn), if_neg (not_not.mpr htxs)] at h
      have h0 : Block.number genesis.header.id = 0 := hnum.trans hn
      simp only [indexBlock, h0, ne_eq, not_true_eq_false, if_false, bind, Except.bind,
        pure, Except.pure, Except.ok.injEq] at h
      subst h
      refine ⟨htxs, h0, ?_, ?_, ?_, ?_⟩ <;> simp [saveBlock, htxs, putTxs, empty]
    · rw [if_neg (not_not.mpr hn), if_pos htxs] at h
      cases h
  · rw [if_pos hn] at h
    cases h

lemma indexed_genesis {genesis : NewBlock} {r : Repository}
    (hnum : Block.number genesis.header.id = genesis.header.number)
    (h : newRepository genesis = .ok r) : Indexed r ∧ r.countAt 0 = 1 := by
  obtain ⟨htxs, h0, hdata, hindex, hkeys, hentries⟩ := newRepository_stores hnum h
  generalize genesis.header.id = g at *
  have hcases : ∀ z s, r.data.lookup z = some s → z = g ∧ s = ⟨genesis.header, [], 0⟩ :=
    fun z s hz => by
      rw [hdata] at hz
      by_cases hzg : z = g
      · subst hzg
        rw [AList.lookup_insert, Option.some_inj] at hz
        exact ⟨rfl, hz.symm⟩
      · rw [AList.lookup_insert_ne hzg] at hz
        cases hz
  have hg : r.data.lookup g = some ⟨genesis.header, [], 0⟩ := by rw [hdata, AList.lookup_insert]
  have hcount : r.countAt 0 = 1 := by simp [countAt, hdata, h0]
  refine ⟨⟨fun z s hz => ?_, fun z s hz hz0 => ?_, fun z s hz => ?_, fun z s hz => ?_,
    fun z₁ s₁ z₂ s₂ hz₁ hz₂ _ _ => ?_, fun t z => ?_, fun t z s hz htx => ?_⟩, hcount⟩
  · obtain ⟨rfl, rfl⟩ := hcases z s hz
    exact hnum
  · obtain ⟨rfl, rfl⟩ := hcases z s hz
    exact absurd h0 hz0
  · obtain ⟨rfl, rfl⟩ := hcases z s hz
    refine ⟨_, by rw [hindex, h0]; exact Function.update_self .., fun m a => ?_⟩
    constructor
    · intro hm
      by_cases hm0 : m = 0
      · subst hm0
        rw [Function.update_self, Option.some_inj] at hm
        subst hm
        exact ⟨.self hg, h0⟩
      · rw [Function.update_of_ne hm0] at hm
        cases hm
    · rintro ⟨ha, rfl⟩
      obtain rfl := ha.eq_of_number_eq_zero h0
      rw [h0, Function.update_self]
  · obtain ⟨rfl, rfl⟩ := hcases z s hz
    rw [h0, hcount]
    exact Nat.one_pos
  · rw [(hcases z₁ s₁ hz₁).1, (hcases z₂ s₂ hz₂).1]
  · rw [hentries]
    cases hz : r.data.lookup z with
    | none => rfl
    | some s =>
      obtain ⟨-, rfl⟩ := hcases z s hz
      rfl
  · obtain ⟨-, rfl⟩ := hcases z s hz
    obtain ⟨tx, hmem, -⟩ := htx
    cases hmem

lemma Built.countAt_zero_pos {r : Repository} (hr : Built r) : 0 < r.countAt 0 := by
  induction hr with
  | genesis hnum h => rw [(indexed_genesis hnum h).2]; decide
  | addBlock _ hfresh _ hadd ih =>
    rw [countAt_insert hfresh (addBlock_data hadd)]
    omega

/-- The run rule: a built repository is indexed, while the genesis is the only block
numbered zero and fewer than `2 ^ 32` blocks share a height. The bounds of the last
repository hold of every one before it, since blocks are only added. -/
lemma Built.indexed {r : Repository} (hr : Built r) (hzero : r.countAt 0 = 1)
    (hcount : ∀ n, r.countAt n < 2 ^ 32) : Indexed r := by
  induction hr with
  | genesis hnum h => exact (indexed_genesis hnum h).1
  | @addBlock r r' b hr hfresh hnum hadd ih =>
    have hcnt := countAt_insert hfresh (addBlock_data hadd)
    have hpos := hr.countAt_zero_pos
    -- the new block is not numbered zero, or there would be two such blocks
    have h0 : Block.number b.header.id ≠ 0 := fun h0 => by
      have := hcnt 0
      simp only [h0, if_true] at this
      omega
    have hr0 : r.countAt 0 = 1 := by
      have := hcnt 0
      simp only [h0, if_false] at this
      omega
    have hrn : ∀ n, r.countAt n < 2 ^ 32 := fun n => by
      have := hcnt n
      have := hcount n
      omega
    have hnew : r.countAt (Block.number b.header.id) < 2 ^ 32 := by
      have := hcnt (Block.number b.header.id)
      have := hcount (Block.number b.header.id)
      simp only [if_true] at *
      omega
    exact (ih hr0 hrn).addBlock hfresh hnum h0 hnew hadd

/-! ## Reading a chain -/

lemma find?_eq_some_of_unique {α : Type} {p : α → Bool} {l : List α} {a : α} (ha : a ∈ l)
    (hpa : p a = true) (huniq : ∀ b ∈ l, p b = true → b = a) : l.find? p = some a := by
  cases hf : l.find? p with
  | none => exact absurd hpa (by simpa using List.find?_eq_none.mp hf a ha)
  | some b => rw [huniq b (List.mem_of_find?_eq_some hf) (List.find?_some hf)]

section Read

variable {r : Repository} (hi : Indexed r) {h : Bytes32} {s : BlockSummary}
  (hs : r.data.lookup h = some s)
include hi hs

lemma Indexed.read : ∃ trie : UInt32 → Option Bytes32,
    (∀ n a, trie n = some a ↔ Ancestor r a h ∧ Block.number a = n) ∧
    (∀ n, (r.newChain h).getBlockID n = match trie n with
      | none => .error .notFound
      | some id => .ok id) ∧
    ∀ id, (r.newChain h).hasBlock id = .ok (decide (trie (Block.number id) = some id)) := by
  obtain ⟨trie, ht, hT⟩ := hi.index h s hs
  have ht' : (r.newChain h).repo.index (s.header.number, s.conflicts) = some trie := by
    rw [← hi.number_eq h s hs]
    exact ht
  exact ⟨trie, hT, getBlockID_of_index (c := r.newChain h) hs ht',
    hasBlock_of_index (c := r.newChain h) hs ht'⟩

lemma Indexed.getBlockID_eq_ok_iff (n : UInt32) (a : Bytes32) :
    (r.newChain h).getBlockID n = .ok a ↔ Ancestor r a h ∧ Block.number a = n := by
  obtain ⟨trie, hT, hget, -⟩ := hi.read hs
  rw [hget, ← hT]
  cases trie n <;> simp

lemma Indexed.getBlockID_of_le {n : UInt32} (hn : n ≤ Block.number h) :
    ∃ a, (r.newChain h).getBlockID n = .ok a := by
  obtain ⟨a, ha⟩ := hi.exists_ancestor _ h rfl (by simp [hs]) n hn
  exact ⟨a, (hi.getBlockID_eq_ok_iff hs n a).mpr ha⟩

lemma Indexed.getBlockID_of_lt {n : UInt32} (hn : Block.number h < n) :
    (r.newChain h).getBlockID n = .error .notFound := by
  obtain ⟨trie, hT, hget, -⟩ := hi.read hs
  rw [hget]
  cases htn : trie n with
  | none => rfl
  | some a =>
    -- an ancestor is numbered at most as the head
    obtain ⟨ha, rfl⟩ := (hT n a).mp htn
    have := hi.number_le ha
    rw [UInt32.lt_iff_toNat_lt] at hn
    omega

lemma Indexed.hasBlock_iff (id : Bytes32) :
    ∃ b, (r.newChain h).hasBlock id = .ok b ∧ (b = true ↔ Ancestor r id h) := by
  obtain ⟨trie, hT, -, hhas⟩ := hi.read hs
  refine ⟨_, hhas id, ?_⟩
  rw [decide_eq_true_iff, hT]
  exact and_iff_left rfl

omit hs in
lemma Indexed.entry_of_mem {t : Bytes32} {e : Σ _ : Bytes32, StorageTxMeta}
    (he : e ∈ (r.newChain h).txEntries t) :
    ∃ s', r.data.lookup e.1 = some s' ∧ lastMeta 0 s'.txs t = some e.2 := by
  have hmem : e ∈ (r.txIndexer t).entries := List.mem_mergeSort.mp he
  have hlookup : (r.txIndexer t).lookup e.1 = some e.2 := AList.mem_lookup_iff.mpr hmem
  rw [hi.tx_entry, Option.bind_eq_some_iff] at hlookup
  exact hlookup

lemma Indexed.getTransactionMeta_of_not_mem {t : Bytes32}
    (hnone : ∀ a s', Ancestor r a h → r.data.lookup a = some s' → ∀ tx ∈ s'.txs, tx.1 ≠ t) :
    (r.newChain h).getTransactionMeta t = .error .notFound := by
  obtain ⟨trie, hT, -, hhas⟩ := hi.read hs
  unfold Chain.getTransactionMeta
  split
  · rfl
  · rw [findOnChain_eq fun e _ => hhas e.1, List.find?_eq_none.mpr]
    intro e he hp
    obtain ⟨s', hs', hlast⟩ := hi.entry_of_mem he
    have ha := ((hT _ _).mp (of_decide_eq_true hp)).1
    -- the block of the entry is on the chain, and contains the transaction
    have hin : ¬ ∀ tx ∈ s'.txs, tx.1 ≠ t := fun hall => by
      rw [lastMeta_eq_none_iff.mpr hall] at hlast
      cases hlast
    exact hin (hnone e.1 s' ha hs')

lemma Indexed.getTransactionMeta_of_unique {t a : Bytes32} {s' : BlockSummary}
    (ha : Ancestor r a h) (hs' : r.data.lookup a = some s') (hin : ∃ tx ∈ s'.txs, tx.1 = t)
    (huniq : ∀ a' s'', Ancestor r a' h → r.data.lookup a' = some s'' →
      (∃ tx ∈ s''.txs, tx.1 = t) → a' = a) :
    ∃ m, lastMeta 0 s'.txs t = some m ∧
      (r.newChain h).getTransactionMeta t = .ok ⟨a, m.index, m.reverted⟩ := by
  obtain ⟨trie, hT, -, hhas⟩ := hi.read hs
  obtain ⟨m, hm⟩ : ∃ m, lastMeta 0 s'.txs t = some m := by
    cases hl : lastMeta 0 s'.txs t with
    | none =>
      obtain ⟨tx, hmem, htx⟩ := hin
      exact absurd htx (lastMeta_eq_none_iff.mp hl tx hmem)
    | some m => exact ⟨m, rfl⟩
  refine ⟨m, hm, ?_⟩
  have hkey : r.txKeys t = true := hi.tx_key t a s' hs' hin
  have hentry : (⟨a, m⟩ : Σ _ : Bytes32, StorageTxMeta) ∈ (r.newChain h).txEntries t := by
    apply List.mem_mergeSort.mpr
    apply AList.mem_lookup_iff.mp
    show (r.txIndexer t).lookup a = some m
    rw [hi.tx_entry, hs']
    exact hm
  have hpa : decide (trie (Block.number a) = some a) = true :=
    decide_eq_true ((hT _ _).mpr ⟨ha, rfl⟩)
  -- the entry of the one block of the chain that contains the ID is the only one found
  have hfind : ((r.newChain h).txEntries t).find?
      (fun e => decide (trie (Block.number e.1) = some e.1)) = some ⟨a, m⟩ := by
    refine find?_eq_some_of_unique hentry hpa fun e he hp => ?_
    obtain ⟨s'', hs'', hlast⟩ := hi.entry_of_mem he
    have he1 : e.1 = a := by
      refine huniq e.1 s'' ((hT _ _).mp (of_decide_eq_true hp)).1 hs'' ?_
      by_contra hno
      rw [lastMeta_eq_none_iff.mpr fun tx hmem htx => hno ⟨tx, hmem, htx⟩] at hlast
      cases hlast
    obtain ⟨e1, e2⟩ := e
    simp only at he1
    subst he1
    rw [hs'', Option.some_inj] at hs'
    subst hs'
    rw [hm, Option.some_inj] at hlast
    rw [hlast]
  unfold Chain.getTransactionMeta
  rw [if_neg (by simp [Repository.newChain, hkey]), findOnChain_eq fun e _ => hhas e.1, hfind]

end Read

/-- In a built repository where the genesis is the only block numbered zero and fewer than
`2 ^ 32` blocks share a height, the chain of every stored block finds by number exactly the
block's ancestors, has exactly them, and finds a transaction in the one block of the chain
that contains it, however many other branches contain it too. -/
theorem newChain_reads_ancestors (r : Repository) (hr : Built r) (hzero : r.countAt 0 = 1)
    (hcount : ∀ n, r.countAt n < 2 ^ 32) (h : Bytes32) (hh : (r.data.lookup h).isSome) :
    (∀ n a, (r.newChain h).getBlockID n = .ok a ↔ Ancestor r a h ∧ Block.number a = n) ∧
    (∀ n, n ≤ Block.number h → ∃ a, (r.newChain h).getBlockID n = .ok a) ∧
    (∀ n, Block.number h < n → (r.newChain h).getBlockID n = .error .notFound) ∧
    (∀ id, ∃ b, (r.newChain h).hasBlock id = .ok b ∧ (b = true ↔ Ancestor r id h)) ∧
    ∀ t, ((∀ a s, Ancestor r a h → r.data.lookup a = some s → ∀ tx ∈ s.txs, tx.1 ≠ t) →
        (r.newChain h).getTransactionMeta t = .error .notFound) ∧
      ∀ a s, Ancestor r a h → r.data.lookup a = some s → (∃ tx ∈ s.txs, tx.1 = t) →
        (∀ a' s', Ancestor r a' h → r.data.lookup a' = some s' → (∃ tx ∈ s'.txs, tx.1 = t) →
          a' = a) →
        ∃ i reverted, s.txs[i]? = some (t, reverted) ∧
          (∀ k, i < k → ∀ tx, s.txs[k]? = some tx → tx.1 ≠ t) ∧
          (r.newChain h).getTransactionMeta t = .ok ⟨a, i, reverted⟩ := by
  have hi := hr.indexed hzero hcount
  obtain ⟨s, hs⟩ := Option.isSome_iff_exists.mp hh
  refine ⟨hi.getBlockID_eq_ok_iff hs, fun n => hi.getBlockID_of_le hs,
    fun n => hi.getBlockID_of_lt hs, hi.hasBlock_iff hs, fun t => ⟨hi.getTransactionMeta_of_not_mem hs,
    fun a s' ha hs' hin huniq => ?_⟩⟩
  obtain ⟨m, hm, hmeta⟩ := hi.getTransactionMeta_of_unique hs ha hs' hin huniq
  -- the entry kept is that of the last occurrence of the ID in the block
  obtain ⟨j, hj, hget, hlast⟩ := lastMeta_eq_some_iff.mp hm
  rw [Nat.zero_add] at hj
  exact ⟨m.index, m.reverted, hj ▸ hget, hj ▸ hlast, hmeta⟩

/-- A genesis block: numbered zero, as its parent ID is numbered `2 ^ 32 - 1`. -/
def genesisBlock : NewBlock := ⟨⟨Bytes32.zero, ⟨List.replicate 32 255, rfl⟩, 0, 0, none⟩, []⟩

lemma genesisBlock_number : Block.number genesisBlock.header.id = genesisBlock.header.number := by
  decide

lemma newRepository_genesisBlock : ∃ r, newRepository genesisBlock = .ok r := by
  have h1 : ¬ genesisBlock.header.number ≠ 0 := by decide
  have h2 : ¬ genesisBlock.txs ≠ [] := by decide
  have h3 : ¬ Block.number genesisBlock.header.id ≠ 0 := by decide
  simp only [newRepository, indexBlock, h1, h2, h3, if_false]
  exact ⟨_, rfl⟩

/-! ## A repository with two forks -/

/-- The block numbered `n`, with `k` in the byte after its number, on `parent` at `time`. -/
def forkBlock (n k : UInt8) (parent : Bytes32) (time : UInt64) (txs : List (Bytes32 × Bool)) :
    NewBlock :=
  ⟨⟨⟨[0, 0, 0, n, k] ++ List.replicate 27 0, by simp⟩, parent, time, 0, none⟩, txs⟩

/-- The transaction of block `2a`. -/
def forkedTx : Bytes32 := ⟨List.replicate 32 0xAA, by simp⟩

def block1 : NewBlock := forkBlock 1 0 genesisBlock.header.id 10 []

def block2a : NewBlock := forkBlock 2 0 block1.header.id 20 [(forkedTx, false)]

def block2b : NewBlock := forkBlock 2 1 block1.header.id 30 []

def block3b : NewBlock := forkBlock 3 1 block2b.header.id 40 []

/-- The genesis and then two forks on block 1, by `AddBlock` in the order `1`, `2a`, `2b`,
`3b`, each block later than its parent. -/
def forkedRepository : Option Repository :=
  match newRepository genesisBlock with
  | .ok r => r.addBlocks [block1, block2a, block2b, block3b]
  | .error _ => none

lemma forkedRepository_eval {r : Repository} (hr : forkedRepository = some r) {β : Type}
    {f : Repository → β} {b : β} (h : forkedRepository.map f = some b) : f r = b := by
  rw [hr, Option.map_some, Option.some.injEq] at h
  exact h

lemma of_entries_all {r : Repository} {p : Bytes32 → BlockSummary → Bool}
    (h : r.data.entries.all (fun e => p e.1 e.2) = true) {a : Bytes32} {s : BlockSummary}
    (hs : r.data.lookup a = some s) : p a s = true :=
  List.all_eq_true.mp h ⟨a, s⟩ (AList.mem_lookup_iff.mp hs)

lemma forkedRepository_spec :
    ∃ r, forkedRepository = some r ∧ Built r ∧ r.countAt 0 = 1 ∧ ∀ n, r.countAt n < 2 ^ 32 := by
  obtain ⟨r₀, hr₀⟩ := newRepository_genesisBlock
  obtain ⟨r, hr⟩ := Option.isSome_iff_exists.mp (by decide +kernel : forkedRepository.isSome)
  have hrun : r₀.addBlocks [block1, block2a, block2b, block3b] = some r := by
    rw [← hr, forkedRepository, hr₀]
  have hbuilt : Built r := (Built.genesis genesisBlock_number hr₀).addBlocks hrun
  have hlen : r.data.keys.length = 5 :=
    forkedRepository_eval hr (f := (·.data.keys.length)) (by decide +kernel)
  exact ⟨r, hr, hbuilt, forkedRepository_eval hr (f := (·.countAt 0)) (by decide +kernel),
    fun n => lt_of_le_of_lt (hlen ▸ List.countP_le_length) (by decide)⟩

/-- The chain of block `3b` reads `2b` and `1` below it, has not block `2a`, reads nothing
above its head, and does not find the transaction that only the other fork holds. -/
theorem newChain_reads_ancestors_fork :
    ∃ r, forkedRepository = some r ∧ Built r ∧ r.countAt 0 = 1 ∧ (∀ n, r.countAt n < 2 ^ 32) ∧
      Ancestor r block2b.header.id block3b.header.id ∧
      Ancestor r block1.header.id block3b.header.id ∧
      ¬ Ancestor r block2a.header.id block3b.header.id ∧
      (r.newChain block3b.header.id).getBlockID 4 = .error .notFound ∧
      (r.newChain block3b.header.id).getTransactionMeta forkedTx = .error .notFound := by
  obtain ⟨r, hr, hbuilt, hzero, hcount⟩ := forkedRepository_spec
  have h := newChain_reads_ancestors r hbuilt hzero hcount block3b.header.id
    (forkedRepository_eval hr (f := fun r => (r.data.lookup block3b.header.id).isSome)
      (by decide +kernel))
  have hid2 : (r.newChain block3b.header.id).getBlockID 2 = .ok block2b.header.id :=
    forkedRepository_eval hr (f := fun r => (r.newChain block3b.header.id).getBlockID 2)
      (by decide +kernel)
  have hid1 : (r.newChain block3b.header.id).getBlockID 1 = .ok block1.header.id :=
    forkedRepository_eval hr (f := fun r => (r.newChain block3b.header.id).getBlockID 1)
      (by decide +kernel)
  have hhas : (r.newChain block3b.header.id).hasBlock block2a.header.id = .ok false :=
    forkedRepository_eval hr
      (f := fun r => (r.newChain block3b.header.id).hasBlock block2a.header.id) (by decide +kernel)
  obtain ⟨b, hb, hiff⟩ := h.2.2.2.1 block2a.header.id
  rw [hhas, Except.ok.injEq] at hb
  subst hb
  have hnot : ¬ Ancestor r block2a.header.id block3b.header.id :=
    fun ha => absurd (hiff.mpr ha) (by decide)
  -- only block 2a holds the transaction, and it is off the chain
  have honly : r.data.entries.all (fun e =>
      !(e.2.txs.any (·.1 == forkedTx)) || e.1 == block2a.header.id) = true :=
    forkedRepository_eval hr (f := fun r => r.data.entries.all fun e =>
      !(e.2.txs.any (·.1 == forkedTx)) || e.1 == block2a.header.id) (by decide +kernel)
  have hmeta := (h.2.2.2.2 forkedTx).1 fun a s ha hs tx htx heq => by
    have hany : s.txs.any (·.1 == forkedTx) = true := List.any_eq_true.mpr ⟨tx, htx, by simp [heq]⟩
    have ha2 := of_entries_all
      (p := fun a s => !(s.txs.any (·.1 == forkedTx)) || a == block2a.header.id) honly hs
    simp only [hany, Bool.not_true, Bool.false_or, beq_iff_eq] at ha2
    exact hnot (ha2 ▸ ha)
  exact ⟨r, hr, hbuilt, hzero, hcount, ((h.1 2 _).mp hid2).1, ((h.1 1 _).mp hid1).1, hnot,
    h.2.2.1 4 (by decide), hmeta⟩

/-! ## Conflicts that wrap around -/

/-- The `k`-th child of the genesis: numbered one, with `k` in five further bytes of its ID. -/
def childOfZero (k : ℕ) : NewBlock :=
  ⟨⟨⟨[0, 0, 0, 1, (k / 2 ^ 32).toUInt8, (k / 2 ^ 24).toUInt8, (k / 2 ^ 16).toUInt8,
      (k / 2 ^ 8).toUInt8, k.toUInt8] ++ List.replicate 23 0, by simp⟩,
    Bytes32.zero, 0, 0, none⟩, []⟩

lemma childOfZero_id_inj {k k' : ℕ} (hk : k < 2 ^ 40) (hk' : k' < 2 ^ 40)
    (h : (childOfZero k).header.id = (childOfZero k').header.id) : k = k' := by
  simp only [childOfZero, Bytes32.mk.injEq, List.cons_append, List.cons.injEq, true_and] at h
  obtain ⟨h1, h2, h3, h4, h5, -⟩ := h
  have e1 := congrArg UInt8.toNat h1
  have e2 := congrArg UInt8.toNat h2
  have e3 := congrArg UInt8.toNat h3
  have e4 := congrArg UInt8.toNat h4
  have e5 := congrArg UInt8.toNat h5
  simp only [Nat.toUInt8_eq, UInt8.toNat_ofNat'] at e1 e2 e3 e4 e5
  omega

lemma childOfZero_number (k : ℕ) : Block.number (childOfZero k).header.id = 1 := rfl

lemma childOfZero_header_number (k : ℕ) : (childOfZero k).header.number = 1 := rfl

/-- The version of the index the genesis writes. -/
def genesisTrie : UInt32 → Option Bytes32 := Function.update (fun _ => none) 0 (some Bytes32.zero)

/-- The repository after the genesis and its first `k` children, each given the number of
blocks already at height one as conflicts. -/
structure Wrapping (k : ℕ) (r : Repository) : Prop where
  built : Built r
  genesis : r.data.lookup Bytes32.zero = some ⟨genesisBlock.header, [], 0⟩
  children : ∀ j < 2 ^ 40, (r.data.lookup (childOfZero j).header.id).isSome ↔ j < k
  count : r.countAt 1 = k
  index_genesis : r.index (0, 0) = some genesisTrie
  first : 0 < k → r.data.lookup (childOfZero 0).header.id = some ⟨(childOfZero 0).header, [], 0⟩
  index_first : 0 < k → k ≤ 2 ^ 32 →
    r.index (1, 0) = some (Function.update genesisTrie 1 (some (childOfZero 0).header.id))

lemma Wrapping.step {k : ℕ} {r : Repository} (hw : Wrapping k r) (hk : k + 1 < 2 ^ 40) :
    ∃ r', Wrapping (k + 1) r' ∧
      r'.index (1, k.toUInt32) = some (Function.update genesisTrie 1 (some (childOfZero k).header.id)) := by
  have hfresh : r.data.lookup (childOfZero k).header.id = none := by
    have := hw.children k (by omega)
    simpa using this
  obtain ⟨r', hadd⟩ : ∃ r', r.addBlock (childOfZero k) (r.scanConflicts (childOfZero k).header.number) = .ok r' := by
    have hparent : r.data.lookup (childOfZero k).header.parentID = some ⟨genesisBlock.header, [], 0⟩ := hw.genesis
    unfold addBlock
    rw [hparent]
    have hnum : Block.number (childOfZero k).header.id = 1 := rfl
    have h10 : ((1 : UInt32) ≠ 0) = True := by decide
    have h11 : (1 : UInt32) - 1 = 0 := by decide
    simp only [indexBlock, hnum, h10, if_true, h11, hw.index_genesis, bind, Except.bind]
    exact ⟨_, rfl⟩
  obtain ⟨sp, trie, hp, hbase, hdata, hindex, -, -⟩ :=
    addBlock_stores hadd (by rw [childOfZero_number]; decide)
  rw [childOfZero_number] at hbase hindex
  have hsp : sp = ⟨genesisBlock.header, [], 0⟩ := by
    rw [show (childOfZero k).header.parentID = Bytes32.zero from rfl, hw.genesis,
      Option.some_inj] at hp
    exact hp.symm
  subst hsp
  have htrie : trie = genesisTrie := by
    rw [show (1 : UInt32) - 1 = 0 from rfl, hw.index_genesis,
      Option.some_inj] at hbase
    exact hbase.symm
  subst htrie
  have hscan : r.scanConflicts (childOfZero k).header.number = k.toUInt32 := by
    rw [scanConflicts, show (childOfZero k).header.number = 1 from rfl, hw.count]
  rw [hscan] at hdata hindex hadd
  have hindex' : ∀ v, v ≠ (1, k.toUInt32) → r'.index v = r.index v := fun v hv => by
    rw [hindex, Function.update_of_ne hv]
  refine ⟨r', ⟨.addBlock hw.built hfresh
    ((childOfZero_number k).trans (childOfZero_header_number k).symm) (hscan ▸ hadd), lookup_of_insert hfresh hdata hw.genesis,
    fun j hj => ?_, ?_, ?_, fun hpos => ?_, fun hpos hle => ?_⟩, by rw [hindex, Function.update_self]⟩
  · by_cases hjk : j = k
    · subst hjk
      rw [hdata, AList.lookup_insert]
      simp
    · have hne : (childOfZero j).header.id ≠ (childOfZero k).header.id :=
        fun he => hjk (childOfZero_id_inj hj (by omega) he)
      rw [hdata, AList.lookup_insert_ne hne, hw.children j hj]
      omega
  · rw [countAt_insert hfresh hdata, hw.count]
    rfl
  · rw [hindex' _ (by simp), hw.index_genesis]
  · by_cases hk0 : k = 0
    · subst hk0
      rw [hdata, AList.lookup_insert]
      rfl
    · rw [lookup_of_insert hfresh hdata (hw.first (by omega))]
  · by_cases hk0 : k = 0
    · subst hk0
      rw [hindex, show ((0 : ℕ).toUInt32) = 0 from rfl, Function.update_self]
    · have hne : ((1 : UInt32), (0 : UInt32)) ≠ (1, k.toUInt32) := fun he => by
        have := congrArg (fun v => v.2.toNat) he
        simp only [Nat.toUInt32_eq, UInt32.toNat_ofNat', UInt32.toNat_zero] at this
        omega
      rw [hindex' _ hne, hw.index_first (by omega) (by omega)]
lemma wrapping_genesis : ∃ r, Wrapping 0 r := by
  obtain ⟨r, hr⟩ := newRepository_genesisBlock
  obtain ⟨-, -, hdata, hindex, -⟩ := newRepository_stores genesisBlock_number hr
  have hchild : ∀ j, (childOfZero j).header.id ≠ genesisBlock.header.id := fun j he => by
    have := congrArg Block.number he
    rw [childOfZero_number] at this
    exact absurd this (by decide)
  refine ⟨r, .genesis genesisBlock_number hr, by rw [hdata]; exact AList.lookup_insert _,
    fun j _ => ?_, ?_, ?_, fun h => absurd h (lt_irrefl 0), fun h => absurd h (lt_irrefl 0)⟩
  · rw [hdata, AList.lookup_insert_ne (hchild j)]
    simp
  · simp [countAt, hdata]
    decide
  · rw [hindex]
    rfl

lemma exists_wrapping : ∀ k ≤ 2 ^ 32, ∃ r, Wrapping k r
  | 0, _ => wrapping_genesis
  | k + 1, hk => by
    obtain ⟨r, hw⟩ := exists_wrapping k (by omega)
    obtain ⟨r', hw', -⟩ := hw.step (by omega)
    exact ⟨r', hw'⟩

/-- `ScanConflicts` counts in `uint32`: the `2 ^ 32 + 1`-th child of the genesis is given the
conflicts of the first, its version of the index overwrites the first one's, and the first
child is no longer on its own chain. -/
theorem built_conflicts_wrap_hides_block :
    ∃ r id, Built r ∧ r.countAt 1 = 2 ^ 32 + 1 ∧ (r.data.lookup id).isSome ∧
      (r.newChain id).hasBlock id = .ok false ∧
      (r.newChain id).getBlockID (Block.number id) ≠ .ok id := by
  obtain ⟨r, hw⟩ := exists_wrapping (2 ^ 32) le_rfl
  obtain ⟨r', hw', hidx⟩ := hw.step (by omega)
  have hfirst := hw'.first (by omega)
  have hidx' : r'.index ((childOfZero 0).header.number, 0) =
      some (Function.update genesisTrie 1 (some (childOfZero (2 ^ 32)).header.id)) := hidx
  have hne : (childOfZero (2 ^ 32)).header.id ≠ (childOfZero 0).header.id :=
    fun he => absurd (childOfZero_id_inj (by omega) (by omega) he) (by omega)
  have hhas := hasBlock_of_index (c := r'.newChain (childOfZero 0).header.id) hfirst hidx'
    (childOfZero 0).header.id
  have hget := getBlockID_of_index (c := r'.newChain (childOfZero 0).header.id) hfirst hidx'
    (Block.number (childOfZero 0).header.id)
  rw [childOfZero_number, Function.update_self] at hhas hget
  refine ⟨r', (childOfZero 0).header.id, hw'.built, hw'.count, by simp [hfirst], ?_, ?_⟩
  · rw [hhas, decide_eq_false (fun h => hne (Option.some_inj.mp h))]
  · rw [childOfZero_number, hget]
    exact fun h => hne (Except.ok.inj h)

end AuthorityBlock.Chain
