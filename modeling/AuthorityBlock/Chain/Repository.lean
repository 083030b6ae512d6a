import AuthorityBlock.Block.Header
import Mathlib

/-! The model of the block repository of `chain/repository.go` and of the chains of
`chain/chain.go`.

The repository keeps three stores. The data store holds a summary of each block under its ID,
with the receipts saved beside it. The index trie is non-crypto and versioned by
`(number, conflicts)`; it is modelled as one map from block number to block ID for each
committed version, and a version never committed is a missing node. The transaction index
holds a pure key for each transaction ID and one entry for each block that contains it. A
chain is a head ID, read through the index version of its head. -/

namespace AuthorityBlock.Chain

open Block (Header)

inductive ChainError
  /-- `errNotFound` -/
  | notFound
  | parentMissing
  /-- `lazyInit` could not load the head's summary. -/
  | lazyInit
  /-- The index trie has no node at this version. -/
  | missingNode (version : UInt32 × UInt32)
  | genesis (msg : String)
deriving DecidableEq

/-- A block and its receipts as `AddBlock` reads them: the header, and the ID of each
transaction paired with the `Reverted` flag of its receipt. -/
structure NewBlock where
  header : Header
  txs : List (Bytes32 × Bool)

/-- What the data store keeps of a block: its summary (header, transaction IDs and
conflicts) and the `Reverted` flags of the receipts saved with it. -/
structure BlockSummary where
  header : Header
  txs : List (Bytes32 × Bool)
  conflicts : UInt32

structure StorageTxMeta where
  index : ℕ
  reverted : Bool
deriving DecidableEq

structure Repository where
  data : AList fun _ : Bytes32 => BlockSummary
  index : UInt32 × UInt32 → Option (UInt32 → Option Bytes32)
  txKeys : Bytes32 → Bool
  txIndexer : Bytes32 → AList fun _ : Bytes32 => StorageTxMeta

/-- The entry the loop of `saveBlock` leaves for a transaction ID: that of its last
occurrence, counting positions from `i`. -/
def lastMeta : ℕ → List (Bytes32 × Bool) → Bytes32 → Option StorageTxMeta
  | _, [], _ => none
  | i, (txid, reverted) :: rest, t =>
    (lastMeta (i + 1) rest t).or (if txid = t then some ⟨i, reverted⟩ else none)

lemma lastMeta_eq_none_iff {i : ℕ} {txs : List (Bytes32 × Bool)} {t : Bytes32} :
    lastMeta i txs t = none ↔ ∀ tx ∈ txs, tx.1 ≠ t := by
  induction txs generalizing i with
  | nil => simp [lastMeta]
  | cons tx rest ih =>
    obtain ⟨txid, reverted⟩ := tx
    by_cases ht : txid = t <;> simp [lastMeta, ih, ht]

lemma lastMeta_eq_some_iff {i : ℕ} {txs : List (Bytes32 × Bool)} {t : Bytes32}
    {m : StorageTxMeta} :
    lastMeta i txs t = some m ↔ ∃ j, m.index = i + j ∧ txs[j]? = some (t, m.reverted) ∧
      ∀ k, j < k → ∀ tx, txs[k]? = some tx → tx.1 ≠ t := by
  induction txs generalizing i m with
  | nil => simp [lastMeta]
  | cons tx rest ih =>
    obtain ⟨txid, reverted⟩ := tx
    cases hrest : lastMeta (i + 1) rest t with
    | some m' =>
      -- a later occurrence decides
      obtain ⟨j, hj, hget, hlast⟩ := ih.mp hrest
      simp only [lastMeta, hrest, Option.some_or, Option.some_inj]
      constructor
      · rintro rfl
        refine ⟨j + 1, by omega, by simpa using hget, fun k hk tx' htx => ?_⟩
        obtain ⟨k', rfl⟩ : ∃ k', k = k' + 1 := ⟨k - 1, by omega⟩
        exact hlast k' (by omega) tx' (by simpa using htx)
      · rintro ⟨j', hj', hget', hlast'⟩
        -- the occurrence found is the last one, so it is the one the loop kept
        have hjj : j' = j + 1 := by
          rcases Nat.lt_trichotomy j' (j + 1) with hlt | heq | hgt
          · exact absurd rfl (hlast' (j + 1) hlt _ (by simpa using hget))
          · exact heq
          · obtain ⟨k', rfl⟩ : ∃ k', j' = k' + 1 := ⟨j' - 1, by omega⟩
            exact absurd rfl (hlast k' (by omega) _ (by simpa using hget'))
        subst hjj
        have hr : m'.reverted = m.reverted := by simpa [hget] using hget'
        cases m'
        cases m
        simp_all
        omega
    | none =>
      have hnot := lastMeta_eq_none_iff.mp hrest
      simp only [lastMeta, hrest, Option.none_or]
      by_cases ht : txid = t
      · subst ht
        constructor
        · intro h
          rw [if_pos rfl, Option.some_inj] at h
          subst h
          refine ⟨0, rfl, rfl, fun k hk tx' htx => ?_⟩
          obtain ⟨k', rfl⟩ : ∃ k', k = k' + 1 := ⟨k - 1, by omega⟩
          exact hnot tx' (List.mem_of_getElem? (by simpa using htx))
        · rintro ⟨j, hj, hget, -⟩
          cases j with
          | zero =>
            cases m
            simp_all
          | succ j => exact absurd rfl (hnot _ (List.mem_of_getElem? (by simpa using hget)))
      · simp only [ht, if_false, reduceCtorEq, false_iff, not_exists, not_and]
        intro j _ hget _
        cases j with
        | zero => simp_all
        | succ j => exact hnot _ (List.mem_of_getElem? (by simpa using hget)) rfl

namespace Repository

def empty : Repository := ⟨∅, fun _ => none, fun _ => false, fun _ => ∅⟩

variable (r : Repository)

/-- `indexBlock`: the genesis is indexed into the empty trie, every other block into the
version of its parent; the block's number then maps to its ID in the version
`(number, conflicts)`. -/
def indexBlock (parentConflicts : UInt32) (newBlockID : Bytes32) (newConflicts : UInt32) :
    Except ChainError Repository :=
  let newNum := Block.number newBlockID
  let base := if newNum ≠ 0 then r.index (newNum - 1, parentConflicts) else some fun _ => none
  match base with
  | none => .error (.missingNode (newNum - 1, parentConflicts))
  | some trie =>
    .ok { r with
      index := Function.update r.index (newNum, newConflicts)
        (some (Function.update trie newNum (some newBlockID))) }

/-- The loop of `saveBlock` over the transactions: the pure key of each ID, and the entry of
the block under it, so that a later occurrence of an ID in the block overwrites an earlier
one. -/
def putTxs (id : Bytes32) : ℕ → List (Bytes32 × Bool) → Repository → Repository
  | _, [], r => r
  | i, (txid, reverted) :: rest, r =>
    putTxs id (i + 1) rest { r with
      txKeys := Function.update r.txKeys txid true
      txIndexer := Function.update r.txIndexer txid ((r.txIndexer txid).insert id ⟨i, reverted⟩) }

@[simp]
lemma putTxs_data (id : Bytes32) (i : ℕ) (txs : List (Bytes32 × Bool)) (r : Repository) :
    (r.putTxs id i txs).data = r.data := by
  induction txs generalizing i r with
  | nil => rfl
  | cons tx rest ih => exact ih (i + 1) _

@[simp]
lemma putTxs_index (id : Bytes32) (i : ℕ) (txs : List (Bytes32 × Bool)) (r : Repository) :
    (r.putTxs id i txs).index = r.index := by
  induction txs generalizing i r with
  | nil => rfl
  | cons tx rest ih => exact ih (i + 1) _

lemma putTxs_txKeys (id : Bytes32) (i : ℕ) (txs : List (Bytes32 × Bool)) (r : Repository)
    (t : Bytes32) : (r.putTxs id i txs).txKeys t = (r.txKeys t || txs.any fun tx => tx.1 = t) := by
  induction txs generalizing i r with
  | nil => simp [putTxs]
  | cons tx rest ih =>
    obtain ⟨txid, reverted⟩ := tx
    rw [putTxs, ih]
    by_cases ht : t = txid
    · subst ht
      simp
    · simp [ht, Ne.symm ht]

lemma putTxs_txIndexer (id : Bytes32) (i : ℕ) (txs : List (Bytes32 × Bool)) (r : Repository)
    (t b : Bytes32) : ((r.putTxs id i txs).txIndexer t).lookup b =
      if b = id then (lastMeta i txs t).or ((r.txIndexer t).lookup b)
      else (r.txIndexer t).lookup b := by
  induction txs generalizing i r with
  | nil => simp [putTxs, lastMeta]
  | cons tx rest ih =>
    obtain ⟨txid, reverted⟩ := tx
    rw [putTxs, ih]
    by_cases hb : b = id
    · subst hb
      by_cases ht : txid = t
      · subst ht
        simp [lastMeta, AList.lookup_insert]
      · simp [lastMeta, ht, Ne.symm ht]
    · by_cases ht : t = txid
      · subst ht
        simp [hb, AList.lookup_insert_ne hb]
      · simp [hb, ht]

def saveBlock (newBlock : NewBlock) (conflicts : UInt32) : Repository :=
  let r' := r.putTxs newBlock.header.id 0 newBlock.txs
  { r' with data := r'.data.insert newBlock.header.id ⟨newBlock.header, newBlock.txs, conflicts⟩ }

def addBlock (newBlock : NewBlock) (conflicts : UInt32) : Except ChainError Repository :=
  match r.data.lookup newBlock.header.parentID with
  | none => .error .parentMissing
  | some parentSummary => do
    let r' ← r.indexBlock parentSummary.conflicts newBlock.header.id conflicts
    return r'.saveBlock newBlock conflicts

lemma indexBlock_eq_ok {parentConflicts : UInt32} {newBlockID : Bytes32} {newConflicts : UInt32}
    {r' : Repository} (h : r.indexBlock parentConflicts newBlockID newConflicts = .ok r') :
    ∃ trie, (if Block.number newBlockID ≠ 0 then
        r.index (Block.number newBlockID - 1, parentConflicts) else some fun _ => none) = some trie ∧
      r' = { r with
        index := Function.update r.index (Block.number newBlockID, newConflicts)
          (some (Function.update trie (Block.number newBlockID) (some newBlockID))) } := by
  unfold indexBlock at h
  dsimp only at h
  split at h
  · cases h
  · next trie hbase => exact ⟨trie, hbase, (Except.ok.inj h).symm⟩

lemma addBlock_eq_ok {newBlock : NewBlock} {conflicts : UInt32} {r' : Repository}
    (h : r.addBlock newBlock conflicts = .ok r') :
    ∃ parentSummary r₁, r.data.lookup newBlock.header.parentID = some parentSummary ∧
      r.indexBlock parentSummary.conflicts newBlock.header.id conflicts = .ok r₁ ∧
      r' = r₁.saveBlock newBlock conflicts := by
  unfold addBlock at h
  split at h
  · cases h
  · next parentSummary hp =>
    cases hi : r.indexBlock parentSummary.conflicts newBlock.header.id conflicts with
    | error e => rw [hi] at h; cases h
    | ok r₁ =>
      rw [hi] at h
      exact ⟨parentSummary, r₁, hp, hi, (Except.ok.inj h).symm⟩

/-- The number of blocks stored with the given number: the 32-byte keys of the data store
that start with it. -/
def countAt (blockNum : UInt32) : ℕ := r.data.keys.countP fun id => Block.number id = blockNum

def scanConflicts (blockNum : UInt32) : UInt32 := (r.countAt blockNum).toUInt32

end Repository

open Repository

def newRepository (genesis : NewBlock) : Except ChainError Repository :=
  if genesis.header.number ≠ 0 then .error (.genesis "genesis number != 0")
  else if genesis.txs ≠ [] then .error (.genesis "genesis block should not have transactions")
  else do
    let r ← empty.indexBlock 0 genesis.header.id 0
    return r.saveBlock genesis 0

structure TxMeta where
  blockID : Bytes32
  index : ℕ
  reverted : Bool
deriving DecidableEq

end AuthorityBlock.Chain

namespace AuthorityBlock

/-- A chain: the blocks from the genesis up to a head block. -/
structure Chain where
  repo : Chain.Repository
  headID : Bytes32

namespace Chain

def Repository.newChain (r : Repository) (headID : Bytes32) : Chain := ⟨r, headID⟩

variable (c : Chain)

/-- The version of the index trie the chain reads: that of its head's summary. -/
def lazyInit : Except ChainError (UInt32 × UInt32) :=
  match c.repo.data.lookup c.headID with
  | none => .error .lazyInit
  | some summary => .ok (summary.header.number, summary.conflicts)

def getBlockID (num : UInt32) : Except ChainError Bytes32 := do
  let version ← c.lazyInit
  match c.repo.index version with
  | none => .error (.missingNode version)
  | some trie =>
    match trie num with
    | none => .error .notFound
    | some id => .ok id

def hasBlock (id : Bytes32) : Except ChainError Bool :=
  match c.getBlockID (Block.number id) with
  | .ok foundID => .ok (id == foundID)
  | .error .notFound => .ok false
  | .error e => .error e

/-- The loop of `GetTransactionMeta` over the entries of a transaction ID: the first whose
block is on the chain. -/
def findOnChain : List (Σ _ : Bytes32, StorageTxMeta) → Except ChainError TxMeta
  | [] => .error .notFound
  | e :: rest => do
    let has ← c.hasBlock e.1
    if has then return ⟨e.1, e.2.index, e.2.reverted⟩ else findOnChain rest

/-- The entries of a transaction ID in the key order of the store, by block ID bytes. -/
def txEntries (id : Bytes32) : List (Σ _ : Bytes32, StorageTxMeta) :=
  (c.repo.txIndexer id).entries.mergeSort fun a b =>
    ByteOrder.compareBytes a.1.bytes b.1.bytes != .gt

def getTransactionMeta (id : Bytes32) : Except ChainError TxMeta :=
  if !c.repo.txKeys id then .error .notFound else c.findOnChain (c.txEntries id)

variable {c}

section Committed

/-! Reading a chain whose head is stored, with the index version of the head committed. -/

variable {s : BlockSummary} {trie : UInt32 → Option Bytes32}
  (hs : c.repo.data.lookup c.headID = some s)
  (ht : c.repo.index (s.header.number, s.conflicts) = some trie)
include hs ht

lemma getBlockID_of_index (num : UInt32) :
    c.getBlockID num = match trie num with
      | none => .error .notFound
      | some id => .ok id := by
  simp only [getBlockID, lazyInit, hs, ht, bind, Except.bind]

lemma hasBlock_of_index (id : Bytes32) :
    c.hasBlock id = .ok (decide (trie (Block.number id) = some id)) := by
  rw [hasBlock, getBlockID_of_index hs ht]
  cases hfound : trie (Block.number id) with
  | none => rfl
  | some foundID =>
    by_cases hid : id = foundID
    · subst hid
      simp
    · simp [hid, Ne.symm hid]

end Committed

lemma findOnChain_eq {p : (Σ _ : Bytes32, StorageTxMeta) → Bool}
    {l : List (Σ _ : Bytes32, StorageTxMeta)} (hp : ∀ e ∈ l, c.hasBlock e.1 = .ok (p e)) :
    c.findOnChain l = match l.find? p with
      | some e => .ok ⟨e.1, e.2.index, e.2.reverted⟩
      | none => .error .notFound := by
  induction l with
  | nil => rfl
  | cons e rest ih =>
    have he := hp e List.mem_cons_self
    simp only [findOnChain, he, bind, Except.bind, List.find?_cons]
    cases hpe : p e with
    | true => rfl
    | false => exact ih fun e' h => hp e' (List.mem_cons_of_mem _ h)

end AuthorityBlock.Chain
