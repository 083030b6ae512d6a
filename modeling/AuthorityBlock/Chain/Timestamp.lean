import AuthorityBlock.Chain.BlockReader
import AuthorityBlock.Lib.Search

/-! `FindBlockHeaderByTimestamp` of `chain/chain.go`: a binary search over the block numbers
of a chain, forward from the genesis or backward from the head, for the block at a
timestamp. -/

namespace AuthorityBlock.Chain

open Block (Header)

def Repository.getBlockSummary (r : Repository) (id : Bytes32) :
    Except ChainError BlockSummary :=
  match r.data.lookup id with
  | none => .error .notFound
  | some summary => .ok summary

variable (c : Chain)

def getBlockSummary (num : UInt32) : Except ChainError BlockSummary := do
  let id ← c.getBlockID num
  c.repo.getBlockSummary id

def getBlockHeader (num : UInt32) : Except ChainError Header := do
  let summary ← c.getBlockSummary num
  return summary.header

/-- The test of the forward search: the block numbered `i` is at or after `ts`. A failed read
is the `panic` that the deferred `recover` returns as the error. -/
def forwardTest (ts : UInt64) (i : ℕ) : Except ChainError Bool := do
  let h ← c.getBlockHeader i.toUInt32
  return decide (h.timestamp ≥ ts)

/-- The test of the backward search: the block `i` below the head is at or before `ts`. -/
def backwardTest (ts : UInt64) (i : ℕ) : Except ChainError Bool := do
  let h ← c.getBlockHeader (Block.number c.headID - i.toUInt32)
  return decide (h.timestamp ≤ ts)

def findBlockHeaderByTimestamp (ts : UInt64) (flag : ℤ) : Except ChainError Header :=
  let headNum := Block.number c.headID
  if flag ≥ 0 then do
    let n := (← Search.search headNum.toNat (c.forwardTest ts)).toUInt32
    let header ← c.getBlockHeader n
    -- `flag == 0` asks for an exact match
    if flag = 0 ∧ header.timestamp ≠ ts then .error .notFound else .ok header
  else do
    let n := headNum - (← Search.search headNum.toNat (c.backwardTest ts)).toUInt32
    c.getBlockHeader n

/-- What the search reads of a chain: a header for each number up to the head's, and none
above it. -/
structure Readable : Prop where
  read_le : ∀ n ≤ Block.number c.headID, ∃ hdr, c.getBlockHeader n = .ok hdr
  le_of_read : ∀ n hdr, c.getBlockHeader n = .ok hdr → n ≤ Block.number c.headID

def TimestampsIncrease : Prop :=
  ∀ m n (hm hn : Header), c.getBlockHeader m = .ok hm → c.getBlockHeader n = .ok hn → m < n →
    hm.timestamp < hn.timestamp

variable {c}

lemma forwardTest_of_read {ts : UInt64} {i : ℕ} {hdr : Header}
    (h : c.getBlockHeader i.toUInt32 = .ok hdr) :
    c.forwardTest ts i = .ok (decide (ts ≤ hdr.timestamp)) := by
  simp only [forwardTest, h]
  rfl

lemma backwardTest_of_read {ts : UInt64} {i : ℕ} {hdr : Header}
    (h : c.getBlockHeader (Block.number c.headID - i.toUInt32) = .ok hdr) :
    c.backwardTest ts i = .ok (decide (hdr.timestamp ≤ ts)) := by
  simp only [backwardTest, h]
  rfl

lemma findBlockHeaderByTimestamp_eq_of_nonneg {ts : UInt64} {flag : ℤ} (hflag : 0 ≤ flag) {k : ℕ}
    {hdr : Header} (hk : Search.search (Block.number c.headID).toNat (c.forwardTest ts) = .ok k)
    (hg : c.getBlockHeader k.toUInt32 = .ok hdr) :
    c.findBlockHeaderByTimestamp ts flag =
      if flag = 0 ∧ hdr.timestamp ≠ ts then .error .notFound else .ok hdr := by
  simp only [findBlockHeaderByTimestamp, ge_iff_le, if_pos hflag, hk, hg, bind, Except.bind]

lemma findBlockHeaderByTimestamp_eq_of_neg {ts : UInt64} {flag : ℤ} (hflag : flag < 0) {k : ℕ}
    (hk : Search.search (Block.number c.headID).toNat (c.backwardTest ts) = .ok k) :
    c.findBlockHeaderByTimestamp ts flag = c.getBlockHeader (Block.number c.headID - k.toUInt32) := by
  simp only [findBlockHeaderByTimestamp, ge_iff_le, if_neg (not_le.mpr hflag), hk, bind,
    Except.bind]

/-! ## Reading an indexed repository -/

section Indexed

variable {r : Repository} (hi : Indexed r) {h : Bytes32} {s : BlockSummary}
  (hs : r.data.lookup h = some s)
include hi hs

lemma Indexed.getBlockHeader_eq_ok_iff (n : UInt32) (hdr : Header) :
    (r.newChain h).getBlockHeader n = .ok hdr ↔
      ∃ a sa, Ancestor r a h ∧ Block.number a = n ∧ r.data.lookup a = some sa ∧
        sa.header = hdr := by
  obtain ⟨trie, hT, hget, -⟩ := hi.read hs
  simp only [getBlockHeader, getBlockSummary, hget]
  cases htn : trie n with
  | none =>
    simp only [bind, Except.bind, reduceCtorEq, false_iff, not_exists, not_and]
    intro a _ ha han
    rw [← han, (hT _ a).mpr ⟨ha, rfl⟩] at htn
    cases htn
  | some a =>
    obtain ⟨ha, han⟩ := (hT n a).mp htn
    obtain ⟨sa, hsa⟩ := Option.isSome_iff_exists.mp ha.stored
    simp only [bind, Except.bind, Repository.newChain, Repository.getBlockSummary, hsa, pure,
      Except.pure, Except.ok.injEq]
    constructor
    · rintro rfl
      exact ⟨a, sa, ha, han, hsa, rfl⟩
    · rintro ⟨a', sa', ha', han', hsa', rfl⟩
      -- the chain has one block at each number
      have haa : a' = a := by
        have := (hT n a').mpr ⟨ha', han'⟩
        rw [htn] at this
        exact (Option.some.inj this).symm
      subst haa
      rw [hsa] at hsa'
      rw [Option.some.inj hsa']

lemma Indexed.readable : (r.newChain h).Readable where
  read_le n hn := by
    obtain ⟨a, ha, han⟩ := hi.exists_ancestor _ h rfl (by simp [hs]) n hn
    obtain ⟨sa, hsa⟩ := Option.isSome_iff_exists.mp ha.stored
    exact ⟨sa.header, (hi.getBlockHeader_eq_ok_iff hs n _).mpr ⟨a, sa, ha, han, hsa, rfl⟩⟩
  le_of_read n hdr hn := by
    obtain ⟨a, -, ha, rfl, -, -⟩ := (hi.getBlockHeader_eq_ok_iff hs n hdr).mp hn
    rw [UInt32.le_iff_toNat_le]
    exact hi.number_le ha

section Later

-- every stored block not numbered zero is later than its parent, as the consensus checks
variable (hpar : ∀ a sa, r.data.lookup a = some sa → Block.number a ≠ 0 → ∀ sp,
  r.data.lookup sa.header.parentID = some sp → sp.header.timestamp < sa.header.timestamp)
include hpar

lemma Indexed.timestamp_lt_of_ancestor :
    ∀ k a b sa sb, (Block.number b).toNat = (Block.number a).toNat + k + 1 → Ancestor r a h →
      Ancestor r b h → r.data.lookup a = some sa → r.data.lookup b = some sb →
        sa.header.timestamp < sb.header.timestamp := by
  intro k
  induction k with
  | zero =>
    intro a b sa sb hn ha hb hsa hsb
    have h0 : Block.number b ≠ 0 := fun h0 => by rw [h0] at hn; simp at hn
    obtain ⟨sp, hsp⟩ := Option.isSome_iff_exists.mp (hi.parent b sb hsb h0)
    have hp := hi.number_parent hsb h0
    -- the parent is `a` itself
    have hpa : sb.header.parentID = a :=
      hi.ancestor_unique hs (hi.ancestor_parent hb hsb h0) ha (UInt32.toNat_inj.mp (by omega))
    rw [hpa, hsa, Option.some.injEq] at hsp
    exact hsp ▸ hpar b sb hsb h0 sa (hpa ▸ hsa)
  | succ k ih =>
    intro a b sa sb hn ha hb hsa hsb
    have h0 : Block.number b ≠ 0 := fun h0 => by rw [h0] at hn; simp at hn
    obtain ⟨sp, hsp⟩ := Option.isSome_iff_exists.mp (hi.parent b sb hsb h0)
    have hp := hi.number_parent hsb h0
    calc sa.header.timestamp
        < sp.header.timestamp :=
          ih a _ sa sp (by omega) ha (hi.ancestor_parent hb hsb h0) hsa hsp
      _ < sb.header.timestamp := hpar b sb hsb h0 sp hsp

lemma Indexed.timestampsIncrease : (r.newChain h).TimestampsIncrease := by
  intro m n hm hn hgm hgn hmn
  obtain ⟨a, sa, ha, rfl, hsa, rfl⟩ := (hi.getBlockHeader_eq_ok_iff hs m hm).mp hgm
  obtain ⟨b, sb, hb, rfl, hsb, rfl⟩ := (hi.getBlockHeader_eq_ok_iff hs n hn).mp hgn
  rw [UInt32.lt_iff_toNat_lt] at hmn
  exact hi.timestamp_lt_of_ancestor hs hpar ((Block.number b).toNat - (Block.number a).toNat - 1)
    a b sa sb (by omega) ha hb hsa hsb

end Later

end Indexed

/-! ## The two searches -/

section Search

variable (hread : c.Readable) (hinc : c.TimestampsIncrease) (ts : UInt64)
include hread hinc

omit hread in
lemma TimestampsIncrease.le {m n : UInt32} {hm hn : Header} (hmn : m ≤ n)
    (hgm : c.getBlockHeader m = .ok hm) (hgn : c.getBlockHeader n = .ok hn) :
    hm.timestamp ≤ hn.timestamp := by
  rcases UInt32.le_iff_lt_or_eq.mp hmn with hlt | rfl
  · exact UInt64.le_of_lt (hinc m n hm hn hgm hgn hlt)
  · rw [hgm] at hgn
    rw [Except.ok.inj hgn]
    exact UInt64.le_refl _

omit hread hinc in
lemma toNat_toUInt32_of_le {i : ℕ} {n : UInt32} (hi : i ≤ n.toNat) : i.toUInt32.toNat = i := by
  have hn := UInt32.toNat_lt n
  exact UInt32.toNat_ofNat_of_lt' (by simp only [UInt32.size]; omega)

omit hinc in
lemma Readable.read_lt {i : ℕ} (hi : i < (Block.number c.headID).toNat) :
    ∃ hdr, c.getBlockHeader i.toUInt32 = .ok hdr := by
  apply hread.read_le
  rw [UInt32.le_iff_toNat_le, toNat_toUInt32_of_le hi.le]
  exact hi.le

omit hinc in
lemma Readable.read_sub {i : ℕ} (hi : i ≤ (Block.number c.headID).toNat) :
    ∃ hdr, c.getBlockHeader (Block.number c.headID - i.toUInt32) = .ok hdr := by
  apply hread.read_le
  rw [UInt32.le_iff_toNat_le, UInt32.toNat_sub_of_le _ _ (by
    rw [UInt32.le_iff_toNat_le, toNat_toUInt32_of_le hi]
    exact hi)]
  omega

omit hread hinc in
lemma toNat_sub_toUInt32 {i : ℕ} {n : UInt32} (hi : i ≤ n.toNat) :
    (n - i.toUInt32).toNat = n.toNat - i := by
  rw [UInt32.toNat_sub_of_le _ _ (by rw [UInt32.le_iff_toNat_le, toNat_toUInt32_of_le hi]; exact hi),
    toNat_toUInt32_of_le hi]

lemma forward_search :
    ∃ k hdr, Search.search (Block.number c.headID).toNat (c.forwardTest ts) = .ok k ∧
      c.getBlockHeader k.toUInt32 = .ok hdr ∧
      (ts ≤ hdr.timestamp ∨ k.toUInt32 = Block.number c.headID) ∧
      ∀ m < k.toUInt32, ∀ hm : Header, c.getBlockHeader m = .ok hm → hm.timestamp < ts := by
  -- once a block is at or after `ts`, so are the later ones
  have hmono : ∀ a b, a ≤ b → b < (Block.number c.headID).toNat →
      c.forwardTest ts a = .ok true → c.forwardTest ts b = .ok true := by
    intro a b hab hb ha
    obtain ⟨hdra, hga⟩ := hread.read_lt (lt_of_le_of_lt hab hb)
    obtain ⟨hdrb, hgb⟩ := hread.read_lt hb
    rw [forwardTest_of_read hga, Except.ok.injEq, decide_eq_true_iff] at ha
    rw [forwardTest_of_read hgb, Except.ok.injEq, decide_eq_true_iff]
    have hab' : a.toUInt32 ≤ b.toUInt32 := by
      rw [UInt32.le_iff_toNat_le, toNat_toUInt32_of_le (hab.trans hb.le), toNat_toUInt32_of_le hb.le]
      exact hab
    exact UInt64.le_trans ha (hinc.le hab' hga hgb)
  obtain ⟨k, hk, hkn, hbelow, hat⟩ := Search.search_except (fun i hi => by
    obtain ⟨hdr, hg⟩ := hread.read_lt hi
    exact ⟨_, forwardTest_of_read hg⟩) hmono
  obtain ⟨hdr, hg⟩ := hread.read_le k.toUInt32 (by
    rw [UInt32.le_iff_toNat_le, toNat_toUInt32_of_le hkn]
    exact hkn)
  refine ⟨k, hdr, hk, hg, ?_, fun m hm hdrm hgm => ?_⟩
  · rcases Nat.lt_or_ge k (Block.number c.headID).toNat with hlt | hge
    · have hk' := hat hlt
      rw [forwardTest_of_read hg, Except.ok.injEq, decide_eq_true_iff] at hk'
      exact Or.inl hk'
    · refine Or.inr (UInt32.toNat_inj.mp ?_)
      rw [toNat_toUInt32_of_le hkn]
      omega
  · -- every block below the stop tested false
    rw [UInt32.lt_iff_toNat_lt, toNat_toUInt32_of_le hkn] at hm
    have hm' := hbelow m.toNat hm
    rw [forwardTest_of_read (by rwa [Nat.toUInt32_eq, UInt32.ofNat_toNat]), Except.ok.injEq,
      decide_eq_false_iff_not] at hm'
    rw [UInt64.le_iff_toNat_le] at hm'
    rw [UInt64.lt_iff_toNat_lt]
    omega

lemma backward_search :
    ∃ k hdr, Search.search (Block.number c.headID).toNat (c.backwardTest ts) = .ok k ∧
      c.getBlockHeader (Block.number c.headID - k.toUInt32) = .ok hdr ∧
      (hdr.timestamp ≤ ts ∨ Block.number c.headID - k.toUInt32 = 0) ∧
      ∀ m, Block.number c.headID - k.toUInt32 < m → ∀ hm : Header,
        c.getBlockHeader m = .ok hm → ts < hm.timestamp := by
  -- once a block is at or before `ts`, so are the earlier ones
  have hmono : ∀ a b, a ≤ b → b < (Block.number c.headID).toNat →
      c.backwardTest ts a = .ok true → c.backwardTest ts b = .ok true := by
    intro a b hab hb ha
    obtain ⟨hdra, hga⟩ := hread.read_sub (i := a) (by omega)
    obtain ⟨hdrb, hgb⟩ := hread.read_sub hb.le
    rw [backwardTest_of_read hga, Except.ok.injEq, decide_eq_true_iff] at ha
    rw [backwardTest_of_read hgb, Except.ok.injEq, decide_eq_true_iff]
    have hba : Block.number c.headID - b.toUInt32 ≤ Block.number c.headID - a.toUInt32 := by
      rw [UInt32.le_iff_toNat_le, toNat_sub_toUInt32 hb.le, toNat_sub_toUInt32 (by omega)]
      omega
    exact UInt64.le_trans (hinc.le hba hgb hga) ha
  obtain ⟨k, hk, hkn, hbelow, hat⟩ := Search.search_except (fun i hi => by
    obtain ⟨hdr, hg⟩ := hread.read_sub hi.le
    exact ⟨_, backwardTest_of_read hg⟩) hmono
  obtain ⟨hdr, hg⟩ := hread.read_sub hkn
  refine ⟨k, hdr, hk, hg, ?_, fun m hm hdrm hgm => ?_⟩
  · rcases Nat.lt_or_ge k (Block.number c.headID).toNat with hlt | hge
    · have hk' := hat hlt
      rw [backwardTest_of_read hg, Except.ok.injEq, decide_eq_true_iff] at hk'
      exact Or.inl hk'
    · refine Or.inr (UInt32.toNat_inj.mp ?_)
      rw [toNat_sub_toUInt32 hkn]
      simp only [UInt32.toNat_zero]
      omega
  · -- a block above the stop is the head's `l`-th ancestor for some `l` the search passed
    have hmN := UInt32.le_iff_toNat_le.mp (hread.le_of_read m hdrm hgm)
    rw [UInt32.lt_iff_toNat_lt, toNat_sub_toUInt32 hkn] at hm
    have hl : Block.number c.headID - ((Block.number c.headID).toNat - m.toNat).toUInt32 = m := by
      apply UInt32.toNat_inj.mp
      rw [toNat_sub_toUInt32 (by omega)]
      omega
    have hm' := hbelow ((Block.number c.headID).toNat - m.toNat) (by omega)
    rw [backwardTest_of_read (by rwa [hl]), Except.ok.injEq, decide_eq_false_iff_not] at hm'
    rw [UInt64.le_iff_toNat_le] at hm'
    rw [UInt64.lt_iff_toNat_lt]
    omega

lemma findBlockHeaderByTimestamp_of_pos {flag : ℤ} (hflag : 0 < flag) :
    ∃ k hdr, c.findBlockHeaderByTimestamp ts flag = .ok hdr ∧ c.getBlockHeader k = .ok hdr ∧
      (ts ≤ hdr.timestamp ∨ k = Block.number c.headID) ∧
      ∀ m < k, ∀ hm : Header, c.getBlockHeader m = .ok hm → hm.timestamp < ts := by
  obtain ⟨k, hdr, hk, hg, hat, hbelow⟩ := forward_search hread hinc ts
  refine ⟨k.toUInt32, hdr, ?_, hg, hat, hbelow⟩
  rw [findBlockHeaderByTimestamp_eq_of_nonneg hflag.le hk hg, if_neg (fun h => hflag.ne' h.1)]

lemma findBlockHeaderByTimestamp_of_neg {flag : ℤ} (hflag : flag < 0) :
    ∃ k hdr, c.findBlockHeaderByTimestamp ts flag = .ok hdr ∧ c.getBlockHeader k = .ok hdr ∧
      (hdr.timestamp ≤ ts ∨ k = 0) ∧
      ∀ m, k < m → ∀ hm : Header, c.getBlockHeader m = .ok hm → ts < hm.timestamp := by
  obtain ⟨k, hdr, hk, hg, hat, habove⟩ := backward_search hread hinc ts
  exact ⟨_, hdr, (findBlockHeaderByTimestamp_eq_of_neg hflag hk).trans hg, hg, hat, habove⟩

lemma findBlockHeaderByTimestamp_exact :
    (∀ k hdr, c.getBlockHeader k = .ok hdr → hdr.timestamp = ts →
      c.findBlockHeaderByTimestamp ts 0 = .ok hdr) ∧
    ((∀ k hdr, c.getBlockHeader k = .ok hdr → hdr.timestamp ≠ ts) →
      c.findBlockHeaderByTimestamp ts 0 = .error .notFound) := by
  obtain ⟨k', hdr', hk', hg', hat, hbelow⟩ := forward_search hread hinc ts
  have hfind := findBlockHeaderByTimestamp_eq_of_nonneg (le_refl (0 : ℤ)) hk' hg'
  refine ⟨fun k hdr hg hts => ?_, fun hnone => ?_⟩
  · -- the forward search stops at the block at `ts`: below it every block is earlier
    have hkN := UInt32.le_iff_toNat_le.mp (hread.le_of_read k hdr hg)
    have hkk : k'.toUInt32 = k := by
      rcases Nat.lt_trichotomy k.toNat k'.toUInt32.toNat with hlt | heq | hgt
      · have := hbelow k (UInt32.lt_iff_toNat_lt.mpr hlt) hdr hg
        rw [hts] at this
        exact absurd this (UInt64.lt_irrefl ts)
      · exact UInt32.toNat_inj.mp heq.symm
      · have hlt := hinc _ _ _ _ hg' hg (UInt32.lt_iff_toNat_lt.mpr hgt)
        rcases hat with hle | hhead
        · rw [hts] at hlt
          exact absurd (UInt64.lt_of_le_of_lt hle hlt) (UInt64.lt_irrefl ts)
        · rw [hhead] at hgt
          omega
    rw [hkk, hg] at hg'
    cases hg'
    rw [hfind, if_neg (fun h => h.2 hts)]
  · rw [hfind, if_pos ⟨rfl, hnone _ _ hg'⟩]

end Search

theorem findBlockHeaderByTimestamp_spec {r : Repository} (hi : Indexed r) {h : Bytes32}
    {s : BlockSummary} (hs : r.data.lookup h = some s)
    (hinc : (r.newChain h).TimestampsIncrease) (ts : UInt64) :
    let c := r.newChain h
    (∀ flag : ℤ, 0 < flag → ∃ k hdr, c.findBlockHeaderByTimestamp ts flag = .ok hdr ∧
      c.getBlockHeader k = .ok hdr ∧ (ts ≤ hdr.timestamp ∨ k = Block.number h) ∧
      ∀ m < k, ∀ hm : Header, c.getBlockHeader m = .ok hm → hm.timestamp < ts) ∧
    (∀ flag : ℤ, flag < 0 → ∃ k hdr, c.findBlockHeaderByTimestamp ts flag = .ok hdr ∧
      c.getBlockHeader k = .ok hdr ∧ (hdr.timestamp ≤ ts ∨ k = 0) ∧
      ∀ m, k < m → ∀ hm : Header, c.getBlockHeader m = .ok hm → ts < hm.timestamp) ∧
    (∀ k hdr, c.getBlockHeader k = .ok hdr → hdr.timestamp = ts →
      c.findBlockHeaderByTimestamp ts 0 = .ok hdr) ∧
    ((∀ k hdr, c.getBlockHeader k = .ok hdr → hdr.timestamp ≠ ts) →
      c.findBlockHeaderByTimestamp ts 0 = .error .notFound) := by
  have hread := hi.readable hs
  exact ⟨fun _ hflag => findBlockHeaderByTimestamp_of_pos hread hinc ts hflag,
    fun _ hflag => findBlockHeaderByTimestamp_of_neg hread hinc ts hflag,
    findBlockHeaderByTimestamp_exact hread hinc ts⟩

/-- On the chain of block `3b`, at times 0, 10, 30 and 40, the search for time 25 finds block
`2b` forward and block 1 backward. -/
theorem findBlockHeaderByTimestamp_spec_fork :
    ∃ (r : Repository) (s : BlockSummary), Indexed r ∧ r.data.lookup block3b.header.id = some s ∧
      (r.newChain block3b.header.id).TimestampsIncrease ∧
      ((r.newChain block3b.header.id).findBlockHeaderByTimestamp 25 1).map (·.timestamp) = .ok 30 ∧
      ((r.newChain block3b.header.id).findBlockHeaderByTimestamp 25 (-1)).map (·.timestamp) =
        .ok 10 ∧
      let c := r.newChain block3b.header.id
      (∀ flag : ℤ, 0 < flag → ∃ k hdr, c.findBlockHeaderByTimestamp 25 flag = .ok hdr ∧
        c.getBlockHeader k = .ok hdr ∧ (25 ≤ hdr.timestamp ∨ k = Block.number block3b.header.id) ∧
        ∀ m < k, ∀ hm : Header, c.getBlockHeader m = .ok hm → hm.timestamp < 25) ∧
      (∀ flag : ℤ, flag < 0 → ∃ k hdr, c.findBlockHeaderByTimestamp 25 flag = .ok hdr ∧
        c.getBlockHeader k = .ok hdr ∧ (hdr.timestamp ≤ 25 ∨ k = 0) ∧
        ∀ m, k < m → ∀ hm : Header, c.getBlockHeader m = .ok hm → 25 < hm.timestamp) ∧
      (∀ k hdr, c.getBlockHeader k = .ok hdr → hdr.timestamp = 25 →
        c.findBlockHeaderByTimestamp 25 0 = .ok hdr) ∧
      ((∀ k hdr, c.getBlockHeader k = .ok hdr → hdr.timestamp ≠ 25) →
        c.findBlockHeaderByTimestamp 25 0 = .error .notFound) := by
  obtain ⟨r, hr, hbuilt, hzero, hcount⟩ := forkedRepository_spec
  have hi := hbuilt.indexed hzero hcount
  obtain ⟨s, hs⟩ := Option.isSome_iff_exists.mp (forkedRepository_eval hr
    (f := fun r => (r.data.lookup block3b.header.id).isSome) (by decide +kernel))
  -- every block of the run is later than its parent
  have hlater : r.data.entries.all (fun e => Block.number e.1 == 0 ||
      (r.data.lookup e.2.header.parentID).all fun sp =>
        decide (sp.header.timestamp < e.2.header.timestamp)) = true :=
    forkedRepository_eval hr (f := fun r => r.data.entries.all fun e => Block.number e.1 == 0 ||
      (r.data.lookup e.2.header.parentID).all fun sp =>
        decide (sp.header.timestamp < e.2.header.timestamp)) (by decide +kernel)
  have hinc := hi.timestampsIncrease hs fun a sa hsa h0 sp hsp => by
    have hentry := of_entries_all (p := fun a sa => Block.number a == 0 ||
      (r.data.lookup sa.header.parentID).all fun sp =>
        decide (sp.header.timestamp < sa.header.timestamp)) hlater hsa
    simpa [h0, hsp] using hentry
  exact ⟨r, s, hi, hs, hinc,
    forkedRepository_eval hr (f := fun r =>
      ((r.newChain block3b.header.id).findBlockHeaderByTimestamp 25 1).map (·.timestamp))
      (by decide +kernel),
    forkedRepository_eval hr (f := fun r =>
      ((r.newChain block3b.header.id).findBlockHeaderByTimestamp 25 (-1)).map (·.timestamp))
      (by decide +kernel),
    findBlockHeaderByTimestamp_spec hi hs hinc 25⟩

end AuthorityBlock.Chain
