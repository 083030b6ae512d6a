import AuthorityBlock.State.State
import AuthorityBlock.Lib.LastWrite
import AuthorityBlock.Lowrlp.Encoder

/-! The model of `State.Stage`, `Stage.Commit` and of what `New` reads back (`state/stage.go`,
`state/account.go`, `state/cached_object.go`). The database holds the account tries by root,
the storage tries by name and root and the code store by hash. A trie is the function it
stores, its keys unhashed, and its root is a hash the model takes as a parameter. `Stage`
replays the journal into one change record per address and saves each record into a copy of
the account trie; what its commit functions would write is kept as data, and `commit` writes
it. -/

namespace AuthorityBlock.State

open WriteLog

/-- A trie hash never gives the zero root, which `NewTrie` opens as the empty trie. -/
structure TrieHash (α : Type) where
  hash : α → Bytes32
  ne_zero : ∀ t, hash t ≠ Bytes32.zero

abbrev AccountTrie := Address → Option (Account × AccountMetadata)

abbrev StorageTrie := Bytes32 → List UInt8

structure Db where
  accountTrie : Bytes32 → AccountTrie
  storageTrie : List UInt8 × Bytes32 → StorageTrie
  codeStore : List UInt8 → List UInt8

def emptyMetadata : AccountMetadata := ⟨[], 0, 0⟩

-- "s"
def storageTrieNamePrefix : List UInt8 := [0x73]

/-- Go panics on an empty id, which no saved account with a storage root has. -/
def storageTrieName (sid : List UInt8) : List UInt8 := storageTrieNamePrefix ++ sid

namespace Db

variable (db : Db)

def openAccountTrie (root : Bytes32) : AccountTrie :=
  if root = Bytes32.zero then fun _ => none else db.accountTrie root

def openStorageTrie (name : List UInt8) (root : Bytes32) : StorageTrie :=
  if root = Bytes32.zero then fun _ => [] else db.storageTrie (name, root)

@[simp] lemma openStorageTrie_zero (name : List UInt8) :
    db.openStorageTrie name Bytes32.zero = fun _ => [] :=
  if_pos rfl

end Db

def loadAccount (trie : AccountTrie) (addr : Address) : Account × AccountMetadata :=
  (trie addr).getD (emptyAccount, emptyMetadata)

-- the RLP encoder's error, which `Stage` passes on
def errNegativeBigInt : String := "rlp: cannot encode negative *big.Int"

def saveAccount (trie : AccountTrie) (addr : Address) (a : Account) (am : AccountMetadata) :
    Except String AccountTrie :=
  if a.IsEmpty then .ok (Function.update trie addr none)
  else if a.balance < 0 ∨ a.energy < 0 then .error errNegativeBigInt
  else .ok (Function.update trie addr
    (some (a, if a.storageRoot.length > 0 then am else emptyMetadata)))

def saveStorage (trie : StorageTrie) (key : Bytes32) (data : List UInt8) : StorageTrie :=
  Function.update trie key data

structure CachedObject where
  db : Db
  data : Account
  metadata : AccountMetadata

namespace CachedObject

variable (co : CachedObject)

def getOrCreateStorageTrie : Option StorageTrie :=
  if co.data.storageRoot.length = 0 then none
  else some (co.db.openStorageTrie (storageTrieName co.metadata.storageID)
    (BytesToBytes32 co.data.storageRoot))

def getStorage (key : Bytes32) : List UInt8 :=
  match co.getOrCreateStorageTrie with
  | none => []
  | some trie => trie key

def getCode : List UInt8 :=
  if co.data.codeHash.length > 0 then co.db.codeStore co.data.codeHash else []

end CachedObject

def getCachedObject (db : Db) (root : Bytes32) (addr : Address) : CachedObject :=
  ⟨db, (loadAccount (db.openAccountTrie root) addr).1, (loadAccount (db.openAccountTrie root) addr).2⟩

/-- What `New(db, root, ..)` reads below its stacked map. -/
def Committed.load (db : Db) (root : Bytes32) : Committed where
  account addr := (getCachedObject db root addr).data
  code addr := (getCachedObject db root addr).getCode
  storage addr key := (getCachedObject db root addr).getStorage key

lemma Committed.load_account (db : Db) (root : Bytes32) (addr : Address) :
    (Committed.load db root).account addr = (getCachedObject db root addr).data := rfl

lemma Committed.load_code (db : Db) (root : Bytes32) (addr : Address) :
    (Committed.load db root).code addr = (getCachedObject db root addr).getCode := rfl

lemma Committed.load_storage (db : Db) (root : Bytes32) (addr : Address) (key : Bytes32) :
    (Committed.load db root).storage addr key = (getCachedObject db root addr).getStorage key := rfl

/-- What `Stage` gathers for one address: its account, its metadata and its storage writes
since its last barrier, in journal order. The base storage trie Go may hold besides is the one
`NewTrie` reopens from the account, so it is not kept. -/
structure Changed where
  data : Account
  metadata : AccountMetadata
  storage : List (Bytes32 × List UInt8)

structure Replay where
  changes : AList (fun _ : Address => Changed)
  codes : List (List UInt8 × List UInt8)
  storageTrieCreationCount : UInt64

def storageID (newBlockNum newBlockConflicts : UInt32) (count : UInt64) : List UInt8 :=
  Rlp.encodeUint newBlockNum.toUInt64 ++ Rlp.encodeUint newBlockConflicts.toUInt64 ++
    Rlp.encodeUint count

lemma storageID_eq_toBytes (newBlockNum newBlockConflicts : UInt32) (count : UInt64) :
    storageID newBlockNum newBlockConflicts count =
      (((Lowrlp.Encoder.empty.encodeUint newBlockNum.toUInt64).encodeUint
        newBlockConflicts.toUInt64).encodeUint count).toBytes := by
  have hlen : (Lowrlp.Item.rlpList [.uint newBlockNum.toUInt64, .uint newBlockConflicts.toUInt64,
      .uint count]).length < 2 ^ 64 := by
    simp only [Lowrlp.Item.rlpList, Lowrlp.Item.rlp, List.append_nil, List.length_append]
    have := Rlp.length_encodeUint_le newBlockNum.toUInt64
    have := Rlp.length_encodeUint_le newBlockConflicts.toUInt64
    have := Rlp.length_encodeUint_le count
    omega
  obtain ⟨v, hv, he⟩ := Lowrlp.Item.emitsList _ hlen
  have hv' : ((Lowrlp.Encoder.empty.encodeUint newBlockNum.toUInt64).encodeUint
      newBlockConflicts.toUInt64).encodeUint count = v := by
    simpa [Lowrlp.Item.emitList, Lowrlp.Item.emit, Lowrlp.Encoder.empty_append] using
      he Lowrlp.Encoder.empty
  rw [hv', hv.toBytes, storageID]
  simp [Lowrlp.Item.rlpList, Lowrlp.Item.rlp]

def Replay.getChanged (db : Db) (root : Bytes32) (r : Replay) (addr : Address) : Changed :=
  match r.changes.lookup addr with
  | some c => c
  | none => ⟨(getCachedObject db root addr).data, (getCachedObject db root addr).metadata, []⟩

/-- The journal callback of `Stage`. -/
def replayEntry (keccak256 : List UInt8 → List UInt8) (db : Db) (root : Bytes32)
    (newBlockNum newBlockConflicts : UInt32) (r : Replay) : Key → Value → Option Replay
  | .account addr, .account a =>
    some { r with changes := r.changes.insert addr { Replay.getChanged db root r addr with data := a } }
  | .code _, .code code =>
    some (if code.length > 0 then { r with codes := r.codes ++ [(keccak256 code, code)] } else r)
  | .storage addr _ key, .raw raw =>
    let c := Replay.getChanged db root r addr
    let c := { c with storage := c.storage ++ [(key, raw)] }
    if c.metadata.storageID.length = 0 then
      some { r with
        changes := r.changes.insert addr { c with metadata := { c.metadata with
          storageID := storageID newBlockNum newBlockConflicts r.storageTrieCreationCount } }
        storageTrieCreationCount := r.storageTrieCreationCount + 1 }
    else some { r with changes := r.changes.insert addr c }
  -- the barrier discards the storage writes before it and the metadata
  | .storageBarrier addr, _ =>
    let c := Replay.getChanged db root r addr
    some { r with changes := r.changes.insert addr { c with storage := [], metadata := emptyMetadata } }
  -- Go's type assertion on the value panics
  | _, _ => none

/-- The trie `NewTrie` opens from a record's account, with the record's writes saved. -/
def newStorageTrie (db : Db) (c : Changed) : StorageTrie :=
  c.storage.foldl (fun t p => saveStorage t p.1 p.2)
    (db.openStorageTrie (storageTrieName c.metadata.storageID) (BytesToBytes32 c.data.storageRoot))

def stageStorage (db : Db) (newBlockNum newBlockConflicts : UInt32)
    (storageHash : TrieHash StorageTrie) (c : Changed) :
    Changed × Option ((List UInt8 × Bytes32) × StorageTrie) :=
  if !c.data.IsEmpty ∧ c.storage.length > 0 then
    let name := storageTrieName c.metadata.storageID
    let sTrie := newStorageTrie db c
    let sRoot := storageHash.hash sTrie
    ({ c with
        data := { c.data with storageRoot := sRoot.bytes }
        metadata := { c.metadata with
          storageCommitNum := newBlockNum, storageDistinctNum := newBlockConflicts } },
      some ((name, sRoot), sTrie))
  else (c, none)

/-- The loop over the changed accounts, in the order the map hands them out. -/
def saveChanges (db : Db) (newBlockNum newBlockConflicts : UInt32)
    (storageHash : TrieHash StorageTrie) :
    List (Σ _ : Address, Changed) → AccountTrie →
      Except String (AccountTrie × List ((List UInt8 × Bytes32) × StorageTrie))
  | [], trie => .ok (trie, [])
  | ⟨addr, c⟩ :: cs, trie => do
    let (c, commit) := stageStorage db newBlockNum newBlockConflicts storageHash c
    let trie ← saveAccount trie addr c.data c.metadata
    let (trie, commits) ← saveChanges db newBlockNum newBlockConflicts storageHash cs trie
    pure (trie, commit.toList ++ commits)

/-- A stage: the root of the new account trie and what its commit writes. -/
structure Stage where
  root : Bytes32
  storageCommits : List ((List UInt8 × Bytes32) × StorageTrie)
  accountTrie : AccountTrie
  codes : List (List UInt8 × List UInt8)

def Stage.hash (st : Stage) : Bytes32 := st.root

/-- The storage tries, then the account trie, then the codes; none of these writes can fail
in the model. -/
def Stage.commit (st : Stage) (db : Db) : Bytes32 × Db :=
  (st.root, ⟨Function.update db.accountTrie st.root st.accountTrie,
    st.storageCommits.foldl (fun f p => Function.update f p.1 p.2) db.storageTrie,
    st.codes.foldl (fun f p => Function.update f p.1 p.2) db.codeStore⟩)

/-- `Stage(newBlockNum, newBlockConflicts)` of a state opened on `root` of `db`. -/
def stage (keccak256 : List UInt8 → List UInt8) (db : Db) (root : Bytes32)
    (storageHash : TrieHash StorageTrie) (accountHash : TrieHash AccountTrie) (s : State)
    (newBlockNum newBlockConflicts : UInt32) : Option (Except String Stage) :=
  (s.sm.journal (fun k v o => (true, o.bind fun r =>
      replayEntry keccak256 db root newBlockNum newBlockConflicts r k v))
    (some ⟨∅, [], 0⟩)).map fun r =>
    (saveChanges db newBlockNum newBlockConflicts storageHash r.changes.entries
      (db.openAccountTrie root)).map fun (trie, commits) =>
      ⟨accountHash.hash trie, commits, trie, r.codes⟩

end AuthorityBlock.State
