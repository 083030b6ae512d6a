import AuthorityBlock.Muxdb.Path
import AuthorityBlock.State.Stage
import AuthorityBlock.Lib.RlpStream

/-! The keys under which `muxdb/internal/trie/trie.go` stores trie nodes, and `CleanHistory`.
A history key is the space byte, the partition of the commit number, the trie name, the
compact path, the commit number within the partition and the distinct number; a deduped key
stops after the path. The names of the tries form a prefix code, so a key is split back into
its fields at one place only. -/

namespace AuthorityBlock.Muxdb

open ByteOrder PrefixCode

/-- What the key builders read of the backend. A partition factor of zero would make every key
builder divide by zero. -/
structure Backend where
  histSpace : UInt8
  dedupedSpace : UInt8
  histPtnFactor : UInt32
  dedupedPtnFactor : UInt32
  histPtnFactor_pos : 0 < histPtnFactor
  dedupedPtnFactor_pos : 0 < dedupedPtnFactor

/-- `sequence`: the commit number in the low 32 bits, the distinct number in the high ones. -/
def commitNum (seq : UInt64) : UInt32 := seq.toUInt32

def distinctNum (seq : UInt64) : UInt32 := (seq >>> 32).toUInt32

structure Trie where
  back : Backend
  name : List UInt8

namespace Trie

variable (t : Trie)

def makeHistNodeKey (dst : List UInt8) (seq : UInt64) (path : List UInt8) :
    Option (List UInt8) := do
  let dst := dst ++ [t.back.histSpace]
  let dst := appendUint32 dst (commitNum seq / t.back.histPtnFactor)
  let dst := dst ++ t.name
  let dst ← encodePath dst path
  let dst := appendUint32 dst (commitNum seq % t.back.histPtnFactor)
  return appendUint32 dst (distinctNum seq)

def makeDedupedNodeKey (dst : List UInt8) (seq : UInt64) (path : List UInt8) :
    Option (List UInt8) := do
  let dst := dst ++ [t.back.dedupedSpace]
  let dst := appendUint32 dst (commitNum seq / t.back.dedupedPtnFactor)
  let dst := dst ++ t.name
  encodePath dst path

end Trie

/-- The keys `CleanHistory` deletes from a store of `keys`: those of the iterated partitions
whose commit number, read back from both ends of the key, lies in the range. -/
def cleanHistory (back : Backend) (keys : List (List UInt8)) (startCommitNum limitCommitNum : UInt32) :
    List (List UInt8) :=
  if limitCommitNum = 0 then []
  else
    let start := appendUint32 [back.histSpace] (startCommitNum / back.histPtnFactor)
    let limit := appendUint32 [back.histSpace] ((limitCommitNum - 1) / back.histPtnFactor + 1)
    (keys.filter fun key => compareBytes key start != .lt && compareBytes key limit == .lt).filter
      fun key =>
        let ptn := uint32BE (key.drop 1)
        let mod := uint32BE (key.drop (key.length - 8))
        let nodeCommitNum := ptn * back.histPtnFactor + mod
        decide (nodeCommitNum ≥ startCommitNum ∧ nodeCommitNum < limitCommitNum)

/-! ## The names of the tries -/

-- "a", of `state.AccountTrieName`
def accountTrieName : List UInt8 := [0x61]

-- "i", of `chain.IndexTrieName`
def indexTrieName : List UInt8 := [0x69]

/-- The names tries are opened with: the account trie, the index trie, and the storage tries,
named by the storage ID `State.Stage` gives them. -/
def IsTrieName (name : List UInt8) : Prop :=
  name = accountTrieName ∨ name = indexTrieName ∨
    ∃ blockNum conflicts count, name = State.storageTrieName (State.storageID blockNum conflicts count)

/-- `Stream.Uint` reads back an integer `EncodeUint` wrote. -/
def decodeUint (s : List UInt8) : Option (UInt64 × List UInt8) :=
  match Rlp.readUint 64 s with
  | .ok (n, rest) => some (n.toUInt64, rest)
  | .error _ => none

lemma reads_encodeUint : Reads Rlp.encodeUint decodeUint fun _ => True := by
  intro i _ rest
  have hbits : (Rlp.putint i.toNat).length ≤ 64 / 8 :=
    Rlp.length_putint_le (show i.toNat < 256 ^ 8 from i.toNat_lt)
  rw [decodeUint, Rlp.readUint_encodeUint i hbits rest]
  simp

lemma storageID_append_inj {b b' c c' : UInt32} {k k' : UInt64} {r r' : List UInt8}
    (h : State.storageID b c k ++ r = State.storageID b' c' k' ++ r') :
    b = b' ∧ c = c' ∧ k = k' ∧ r = r' := by
  simp only [State.storageID, List.append_assoc] at h
  obtain ⟨hb, h⟩ := reads_encodeUint.eq_of_append_eq trivial trivial h
  obtain ⟨hc, h⟩ := reads_encodeUint.eq_of_append_eq trivial trivial h
  obtain ⟨hk, h⟩ := reads_encodeUint.eq_of_append_eq trivial trivial h
  have hb32 : b.toUInt64.toUInt32 = b'.toUInt64.toUInt32 := by rw [hb]
  have hc32 : c.toUInt64.toUInt32 = c'.toUInt64.toUInt32 := by rw [hc]
  simp only [UInt32.toUInt32_toUInt64] at hb32 hc32
  exact ⟨hb32, hc32, hk, h⟩

lemma prefixFree_trieNames : PrefixFree {name | IsTrieName name} := by
  rintro x hx _ hy ⟨r, rfl⟩
  suffices r = [] by rw [this, List.append_nil]
  rcases hx with rfl | rfl | ⟨b, c, k, rfl⟩ <;> rcases hy with hy | hy | ⟨b', c', k', hy⟩
  · simpa [accountTrieName] using hy
  · simp [accountTrieName, indexTrieName] at hy
  · simp [accountTrieName, State.storageTrieName, State.storageTrieNamePrefix] at hy
  · simp [accountTrieName, indexTrieName] at hy
  · simpa [indexTrieName] using hy
  · simp [indexTrieName, State.storageTrieName, State.storageTrieNamePrefix] at hy
  · simp [accountTrieName, State.storageTrieName, State.storageTrieNamePrefix] at hy
  · simp [indexTrieName, State.storageTrieName, State.storageTrieNamePrefix] at hy
  · -- two storage tries: their IDs are read back field by field
    rw [State.storageTrieName, State.storageTrieName, List.append_assoc,
      ← List.append_nil (State.storageID b' c' k')] at hy
    exact (storageID_append_inj (List.append_cancel_left hy)).2.2.2

/-! ## The keys of a node -/

lemma div_mul_add_mod (c f : UInt32) : c / f * f + c % f = c := by
  apply UInt32.toNat_inj.mp
  have hc := c.toNat_lt
  have hdm := Nat.div_add_mod' c.toNat f.toNat
  have hle : c.toNat / f.toNat * f.toNat ≤ c.toNat := Nat.div_mul_le_self _ _
  rw [UInt32.toNat_add, UInt32.toNat_mul, UInt32.toNat_div, UInt32.toNat_mod,
    Nat.mod_eq_of_lt (show c.toNat / f.toNat * f.toNat < 2 ^ 32 by omega)]
  omega

section Keys

variable {t : Trie} {seq : UInt64} {path : List UInt8}

lemma makeHistNodeKey_of_isPath (hp : IsPath path) (dst : List UInt8) :
    t.makeHistNodeKey dst seq path = some (dst ++ [t.back.histSpace] ++
      putUint32BE (commitNum seq / t.back.histPtnFactor) ++ t.name ++ pathBytes path ++
      putUint32BE (commitNum seq % t.back.histPtnFactor) ++ putUint32BE (distinctNum seq)) := by
  simp only [Trie.makeHistNodeKey, appendUint32, encodePath_of_isPath hp]
  rfl

lemma makeDedupedNodeKey_of_isPath (hp : IsPath path) (dst : List UInt8) :
    t.makeDedupedNodeKey dst seq path = some (dst ++ [t.back.dedupedSpace] ++
      putUint32BE (commitNum seq / t.back.dedupedPtnFactor) ++ t.name ++ pathBytes path) := by
  simp only [Trie.makeDedupedNodeKey, appendUint32, encodePath_of_isPath hp]

end Keys

section Injective

variable {S : Set (List UInt8)} (hS : PrefixFree S) {t t' : Trie} (hback : t.back = t'.back)
  (hn : t.name ∈ S) (hn' : t'.name ∈ S) {seq seq' : UInt64} {path path' : List UInt8}
  (hp : IsPath path) (hp' : IsPath path')
include hS hback hn hn' hp hp'

lemma makeHistNodeKey_inj {key : List UInt8} (h : t.makeHistNodeKey [] seq path = some key)
    (h' : t'.makeHistNodeKey [] seq' path' = some key) :
    t.name = t'.name ∧ commitNum seq = commitNum seq' ∧ distinctNum seq = distinctNum seq' ∧
      path = path' := by
  rw [makeHistNodeKey_of_isPath hp, ← h', makeHistNodeKey_of_isPath hp', Option.some.injEq,
    ← hback] at h
  simp only [List.nil_append, List.append_assoc, List.cons_append, List.cons.injEq, true_and] at h
  obtain ⟨hptn, h⟩ := putUint32BE_append_inj h
  obtain ⟨hname, h⟩ := hS.eq_of_append_eq hn hn' h
  obtain ⟨hpath, h⟩ := reads_pathBytes.eq_of_append_eq hp hp' h
  obtain ⟨hmod, h⟩ := putUint32BE_append_inj h
  refine ⟨hname, ?_, putUint32BE_injective h, hpath⟩
  rw [← div_mul_add_mod (commitNum seq) t.back.histPtnFactor,
    ← div_mul_add_mod (commitNum seq') t.back.histPtnFactor, hptn, hmod]

lemma makeDedupedNodeKey_inj {key : List UInt8} (h : t.makeDedupedNodeKey [] seq path = some key)
    (h' : t'.makeDedupedNodeKey [] seq' path' = some key) :
    t.name = t'.name ∧
      commitNum seq / t.back.dedupedPtnFactor = commitNum seq' / t.back.dedupedPtnFactor ∧
      path = path' := by
  rw [makeDedupedNodeKey_of_isPath hp, ← h', makeDedupedNodeKey_of_isPath hp', Option.some.injEq,
    ← hback] at h
  simp only [List.nil_append, List.append_assoc, List.cons_append, List.cons.injEq, true_and] at h
  obtain ⟨hptn, h⟩ := putUint32BE_append_inj h
  obtain ⟨hname, h⟩ := hS.eq_of_append_eq hn hn' h
  exact ⟨hname, hptn, reads_pathBytes.injective hp hp' (by simpa using h)⟩

end Injective

/-! ## `CleanHistory` -/

section Clean

lemma compareBytes_partition {b : UInt8} {p q : UInt32} {rest : List UInt8} (hr : rest ≠ []) :
    compareBytes ([b] ++ putUint32BE p ++ rest) ([b] ++ putUint32BE q) =
      if p.toNat < q.toNat then .lt else .gt := by
  rw [List.append_assoc, compareBytes_append_left]
  rcases Nat.lt_trichotomy p.toNat q.toNat with hlt | heq | hgt
  · rw [if_pos hlt, ← List.append_nil (putUint32BE q),
      compareBytes_append_of_ne (by simp) (by rw [compareBytes_putUint32BE]; simp [hlt.ne]),
      compareBytes_putUint32BE, Nat.compare_eq_lt.mpr hlt]
  · rw [UInt32.toNat_inj.mp heq, compareBytes_append_right_self _ _ hr, if_neg (lt_irrefl _)]
  · rw [if_neg (by omega), ← List.append_nil (putUint32BE q),
      compareBytes_append_of_ne (by simp) (by rw [compareBytes_putUint32BE]; simp [hgt.ne']),
      compareBytes_putUint32BE, Nat.compare_eq_gt.mpr hgt]

lemma head_of_inRange {b : UInt8} {p q : UInt32} {key : List UInt8}
    (hs : compareBytes key ([b] ++ putUint32BE p) ≠ .lt)
    (hl : compareBytes key ([b] ++ putUint32BE q) = .lt) : key.head? = some b := by
  cases key with
  | nil => exact absurd rfl hs
  | cons x rest =>
    simp only [List.singleton_append, compareBytes] at hs hl
    by_cases hxb : x < b
    · exact absurd (if_pos hxb) hs
    · by_cases hbx : b < x
      · rw [if_neg hxb, if_pos hbx] at hl
        cases hl
      · rw [UInt8.lt_iff_toNat_lt] at hxb hbx
        rw [List.head?_cons, UInt8.toNat_inj.mp (by omega : x.toNat = b.toNat)]

variable {t : Trie} {seq : UInt64} {path key : List UInt8}

lemma makeHistNodeKey_shape (hp : IsPath path) (h : t.makeHistNodeKey [] seq path = some key) :
    key = [t.back.histSpace] ++ putUint32BE (commitNum seq / t.back.histPtnFactor) ++
      (t.name ++ pathBytes path ++ putUint32BE (commitNum seq % t.back.histPtnFactor) ++
        putUint32BE (distinctNum seq)) := by
  rw [makeHistNodeKey_of_isPath hp, Option.some.injEq] at h
  rw [← h]
  simp only [List.nil_append, List.append_assoc]

lemma cleanHistory_decodes (hp : IsPath path) (h : t.makeHistNodeKey [] seq path = some key) :
    uint32BE (key.drop 1) * t.back.histPtnFactor + uint32BE (key.drop (key.length - 8)) =
      commitNum seq := by
  have hptn : uint32BE (key.drop 1) = commitNum seq / t.back.histPtnFactor := by
    rw [makeHistNodeKey_shape hp h, List.append_assoc, List.singleton_append, List.drop_succ_cons,
      List.drop_zero, uint32BE_putUint32BE]
  -- the last eight bytes are the number within the partition and the distinct number
  have hmod : uint32BE (key.drop (key.length - 8)) = commitNum seq % t.back.histPtnFactor := by
    obtain ⟨front, hfront⟩ : ∃ front, key = front ++
        (putUint32BE (commitNum seq % t.back.histPtnFactor) ++ putUint32BE (distinctNum seq)) :=
      ⟨[t.back.histSpace] ++ putUint32BE (commitNum seq / t.back.histPtnFactor) ++ t.name ++
        pathBytes path, by rw [makeHistNodeKey_shape hp h]; simp only [List.append_assoc]⟩
    rw [hfront, List.length_append, List.length_append, putUint32BE_length, putUint32BE_length,
      show front.length + (4 + 4) - 8 = front.length by omega, List.drop_left, uint32BE_putUint32BE]
  rw [hptn, hmod, div_mul_add_mod]

variable {back : Backend} {keys : List (List UInt8)} {startCommitNum limitCommitNum : UInt32}

lemma mem_cleanHistory_iff
    (hkeys : ∀ key ∈ keys, key.head? = some back.histSpace → ∃ (t : Trie) (seq : UInt64) (path : List UInt8),
      t.back = back ∧ IsPath path ∧ t.makeHistNodeKey [] seq path = some key)
    (hkey : key ∈ keys) :
    key ∈ cleanHistory back keys startCommitNum limitCommitNum ↔
      ∃ (t : Trie) (seq : UInt64) (path : List UInt8), t.back = back ∧ IsPath path ∧
        t.makeHistNodeKey [] seq path = some key ∧
        startCommitNum ≤ commitNum seq ∧ commitNum seq < limitCommitNum := by
  unfold cleanHistory
  split_ifs with hl0
  · simp only [List.not_mem_nil, false_iff, not_exists, not_and]
    intro _ _ _ _ _ _ _ hlt
    exact absurd hlt (by rw [hl0]; exact UInt32.not_lt_zero)
  simp only [List.mem_filter, hkey, true_and, Bool.and_eq_true, bne_iff_ne, ne_eq,
    beq_iff_eq, decide_eq_true_eq]
  constructor
  · rintro ⟨⟨hs, hl⟩, hdec⟩
    obtain ⟨t, seq, path, rfl, hp, hk⟩ := hkeys key hkey (head_of_inRange hs hl)
    rw [cleanHistory_decodes hp hk] at hdec
    exact ⟨t, seq, path, rfl, hp, hk, hdec⟩
  · rintro ⟨t, seq, path, rfl, hp, hk, hs, hl⟩
    refine ⟨?_, by rw [cleanHistory_decodes hp hk]; exact ⟨hs, hl⟩⟩
    -- the key's partition lies between those of the two ends of the range
    have hF := t.back.histPtnFactor_pos
    rw [UInt32.le_iff_toNat_le] at hs
    rw [UInt32.lt_iff_toNat_lt] at hl hF
    have hlow : (startCommitNum / t.back.histPtnFactor).toNat ≤
        (commitNum seq / t.back.histPtnFactor).toNat := by
      rw [UInt32.toNat_div, UInt32.toNat_div]
      exact Nat.div_le_div_right hs
    have hhigh : (commitNum seq / t.back.histPtnFactor).toNat <
        ((limitCommitNum - 1) / t.back.histPtnFactor + 1).toNat := by
      have hl1 : (limitCommitNum - 1).toNat = limitCommitNum.toNat - 1 := by
        rw [UInt32.toNat_sub_of_le _ _ (by rw [UInt32.le_iff_toNat_le]; simp; omega)]
        rfl
      have hq := Nat.div_le_div_right (c := t.back.histPtnFactor.toNat)
        (show (commitNum seq).toNat ≤ limitCommitNum.toNat - 1 by omega)
      have hqle : (limitCommitNum.toNat - 1) / t.back.histPtnFactor.toNat ≤
          limitCommitNum.toNat - 1 := Nat.div_le_self _ _
      have hlt := limitCommitNum.toNat_lt
      rw [UInt32.toNat_add, UInt32.toNat_div, UInt32.toNat_div, hl1, UInt32.toNat_one,
        Nat.mod_eq_of_lt (by omega)]
      omega
    have hrest : t.name ++ pathBytes path ++ putUint32BE (commitNum seq % t.back.histPtnFactor) ++
        putUint32BE (distinctNum seq) ≠ [] := by simp [putUint32BE]
    rw [makeHistNodeKey_shape hp hk, appendUint32, appendUint32, compareBytes_partition hrest,
      compareBytes_partition hrest, if_neg (by omega), if_pos hhigh]
    exact ⟨by decide, rfl⟩

lemma cleanHistory_subset : cleanHistory back keys startCommitNum limitCommitNum ⊆ keys := by
  unfold cleanHistory
  split_ifs
  · exact List.nil_subset _
  · exact fun x hx => (List.mem_filter.mp (List.mem_filter.mp hx).1).1

end Clean

end AuthorityBlock.Muxdb
