import AuthorityBlock.State.Replay

/-! Persistence of a stage. A state opened on the root a commit returns reads back what the
staged state read, provided the database is well formed at the old root, Keccak-256 is
injective and the storage trie hash does not collide on the tries involved. An empty account
is deleted, so it reads back as the empty account, whose block time is zero. -/

namespace AuthorityBlock.State

open WriteLog StackedMap

/-- The database at `root` holds no empty account (`saveAccount` deletes one), each code under
its hash, a storage id for each storage root, and storage tries whose hash is their root. -/
structure Db.WellFormed (keccak256 : List UInt8 → List UInt8) (storageHash : TrieHash StorageTrie)
    (db : Db) (root : Bytes32) : Prop where
  nonEmpty : ∀ addr a m, db.openAccountTrie root addr = some (a, m) → ¬a.IsEmpty
  code : ∀ addr, (getCachedObject db root addr).data.codeHash.length > 0 →
    keccak256 (getCachedObject db root addr).getCode = (getCachedObject db root addr).data.codeHash
  storageID : ∀ addr, (getCachedObject db root addr).data.storageRoot.length > 0 →
    (getCachedObject db root addr).metadata.storageID.length > 0
  storageRoot : ∀ addr trie, (getCachedObject db root addr).getOrCreateStorageTrie = some trie →
    BytesToBytes32 (getCachedObject db root addr).data.storageRoot ≠ Bytes32.zero →
      storageHash.hash trie = BytesToBytes32 (getCachedObject db root addr).data.storageRoot

/-- The storage tries the committed world reads. -/
def Db.storageTries (db : Db) (root : Bytes32) : Set StorageTrie :=
  {t | ∃ addr, (getCachedObject db root addr).getOrCreateStorageTrie = some t}

/-- The storage tries a stage writes. -/
def Stage.tries (st : Stage) : Set StorageTrie := {t | ∃ p ∈ st.storageCommits, p.2 = t}

/-- What a state reads back of another at one address. -/
structure ReadsBack (s s' : State) (addr : Address) : Prop where
  getBalance : s'.getBalance addr = s.getBalance addr
  getEnergy : ∀ blockTime, s'.getEnergy addr blockTime = s.getEnergy addr blockTime
  getMaster : s'.getMaster addr = s.getMaster addr
  getCode : s'.getCode addr = s.getCode addr
  getCodeHash : s'.getCodeHash addr = s.getCodeHash addr
  blockTime : s.Exists addr = some true →
    (s'.getAccount addr).map Account.blockTime = (s.getAccount addr).map Account.blockTime
  getRawStorage : s.Exists addr = some true →
    ∀ key, s'.getRawStorage addr key = s.getRawStorage addr key
  empty : s.Exists addr = some false → s'.getAccount addr = some emptyAccount

/-! ## Accounts -/

/-- `a` is `acc` as saved and loaded again: the same but for its storage root, or the empty
account for an empty one. -/
def Account.Restored (a acc : Account) : Prop :=
  a = { acc with storageRoot := a.storageRoot } ∨ acc.IsEmpty ∧ a = emptyAccount

namespace Account.Restored

variable {a acc : Account}

lemma fields (h : a.Restored acc) :
    a.balance = acc.balance ∧ a.energy = acc.energy ∧ a.master = acc.master ∧
      a.codeHash = acc.codeHash := by
  rcases h with h | ⟨he, rfl⟩
  · rw [h]
    exact ⟨rfl, rfl, rfl, rfl⟩
  · obtain ⟨hb, he, hm, hc⟩ := (Account.isEmpty_iff acc).mp he
    exact ⟨hb.symm, he.symm, hm.symm, hc.symm⟩

lemma calcEnergy (h : a.Restored acc) (blockTime : UInt64) :
    a.calcEnergy blockTime = acc.calcEnergy blockTime := by
  rcases h with h | ⟨he, rfl⟩
  · rw [h]
    rfl
  · rw [Account.calcEnergy_of_isEmpty he, Account.emptyAccount_calcEnergy]

lemma blockTime (h : a.Restored acc) (he : ¬acc.IsEmpty) : a.blockTime = acc.blockTime := by
  rcases h with h | ⟨he', -⟩
  · rw [h]
  · exact absurd he' he

end Account.Restored

section Staging

variable {db : Db} {newBlockNum newBlockConflicts : UInt32} {storageHash : TrieHash StorageTrie}
  {c : Changed}

lemma stageStorage_data :
    (stageStorage db newBlockNum newBlockConflicts storageHash c).1.data =
      { c.data with storageRoot :=
        (stageStorage db newBlockNum newBlockConflicts storageHash c).1.data.storageRoot } := by
  unfold stageStorage
  split_ifs <;> rfl

lemma stageStorage_storageID :
    (stageStorage db newBlockNum newBlockConflicts storageHash c).1.metadata.storageID =
      c.metadata.storageID := by
  unfold stageStorage
  split_ifs <;> rfl

lemma stageStorage_of_nil (h : c.storage = []) :
    stageStorage db newBlockNum newBlockConflicts storageHash c = (c, none) := by
  unfold stageStorage
  rw [if_neg (by simp [h])]

lemma stageStorage_of_ne_nil (he : ¬c.data.IsEmpty) (h : c.storage ≠ []) :
    (stageStorage db newBlockNum newBlockConflicts storageHash c).1.data.storageRoot =
        (storageHash.hash (newStorageTrie db c)).bytes ∧
      (stageStorage db newBlockNum newBlockConflicts storageHash c).2 =
        some ((storageTrieName c.metadata.storageID, storageHash.hash (newStorageTrie db c)),
          newStorageTrie db c) := by
  unfold stageStorage
  rw [if_pos ⟨by simpa using he, List.length_pos_iff.mpr h⟩]
  exact ⟨rfl, rfl⟩

lemma stageStorage_snd {p : (List UInt8 × Bytes32) × StorageTrie}
    (h : (stageStorage db newBlockNum newBlockConflicts storageHash c).2 = some p) :
    p.1.2 = storageHash.hash p.2 := by
  unfold stageStorage at h
  split_ifs at h
  · cases h
    rfl

end Staging

lemma eq_of_mem_codeWrites {keccak256 : List UInt8 → List UInt8} {es : List (Key × Value)}
    {hash code : List UInt8} (h : (hash, code) ∈ codeWrites keccak256 es) :
    hash = keccak256 code := by
  obtain ⟨⟨k, v⟩, -, hf⟩ := List.mem_filterMap.mp h
  cases k <;> cases v <;> simp only [reduceCtorEq] at hf
  split_ifs at hf
  cases hf
  rfl

lemma mem_codeWrites {keccak256 : List UInt8 → List UInt8} {es : List (Key × Value)}
    {addr : Address} {code : List UInt8} (h : (Key.code addr, Value.code code) ∈ es)
    (hc : code.length > 0) : (keccak256 code, code) ∈ codeWrites keccak256 es :=
  List.mem_filterMap.mpr ⟨_, h, by simp [hc]⟩

lemma storageOf_eq_rawOf (c : Committed) (es : List (Key × Value)) (addr : Address)
    (key : Bytes32) :
    storageOf c es addr key =
      (rawOf es addr key).getD (if barrierOf es addr ≠ 0 then [] else c.storage addr key) := by
  unfold storageOf rawOf
  cases lastWrite es (.storage addr (barrierOf es addr) key) with
  | none => rfl
  | some v => cases v <;> rfl

/-! ## The commit -/

section Commit

variable {st : Stage} {db : Db} {storageHash : TrieHash StorageTrie}

lemma openAccountTrie_commit (hroot : st.root ≠ Bytes32.zero) :
    (st.commit db).2.openAccountTrie (st.commit db).1 = st.accountTrie := by
  simp [Stage.commit, Db.openAccountTrie, hroot]

lemma codeStore_commit (hash : List UInt8) :
    (st.commit db).2.codeStore hash = (lastWrite st.codes hash).getD (db.codeStore hash) :=
  foldl_update_apply _ _ _

lemma storageTrie_commit (key : List UInt8 × Bytes32) :
    (st.commit db).2.storageTrie key = (lastWrite st.storageCommits key).getD (db.storageTrie key) :=
  foldl_update_apply _ _ _

lemma openStorageTrie_commit_of_mem (hroots : ∀ p ∈ st.storageCommits, p.1.2 = storageHash.hash p.2)
    (hcol : Set.InjOn storageHash.hash st.tries) {name : List UInt8} {t : StorageTrie}
    (ht : ((name, storageHash.hash t), t) ∈ st.storageCommits) :
    (st.commit db).2.openStorageTrie name (storageHash.hash t) = t := by
  unfold Db.openStorageTrie
  rw [if_neg (storageHash.ne_zero t), storageTrie_commit]
  obtain ⟨t', ht'⟩ := Option.ne_none_iff_exists'.mp (lastWrite_ne_none_of_mem ht)
  rw [ht', Option.getD_some]
  have hmem := mem_of_lastWrite_eq_some ht'
  exact hcol ⟨_, hmem, rfl⟩ ⟨_, ht, rfl⟩ (hroots _ hmem).symm

lemma openStorageTrie_commit_of_committed {keccak256 : List UInt8 → List UInt8} {root : Bytes32}
    (hdb : db.WellFormed keccak256 storageHash root)
    (hroots : ∀ p ∈ st.storageCommits, p.1.2 = storageHash.hash p.2)
    (hcol : Set.InjOn storageHash.hash (db.storageTries root ∪ st.tries)) (addr : Address)
    (hR : (getCachedObject db root addr).data.storageRoot.length > 0) :
    (st.commit db).2.openStorageTrie
        (storageTrieName (getCachedObject db root addr).metadata.storageID)
        (BytesToBytes32 (getCachedObject db root addr).data.storageRoot) =
      db.openStorageTrie (storageTrieName (getCachedObject db root addr).metadata.storageID)
        (BytesToBytes32 (getCachedObject db root addr).data.storageRoot) := by
  unfold Db.openStorageTrie
  split_ifs with hz
  · rfl
  · rw [storageTrie_commit]
    cases hw : lastWrite st.storageCommits
        (storageTrieName (getCachedObject db root addr).metadata.storageID,
          BytesToBytes32 (getCachedObject db root addr).data.storageRoot) with
    | none => rfl
    | some t' =>
      rw [Option.getD_some]
      have hmem := mem_of_lastWrite_eq_some hw
      have htrie : (getCachedObject db root addr).getOrCreateStorageTrie =
          some (db.storageTrie (storageTrieName (getCachedObject db root addr).metadata.storageID,
            BytesToBytes32 (getCachedObject db root addr).data.storageRoot)) := by
        rw [CachedObject.getOrCreateStorageTrie, if_neg (by omega), Db.openStorageTrie,
          if_neg hz]
        rfl
      exact hcol (Or.inr ⟨_, hmem, rfl⟩) (Or.inl ⟨addr, htrie⟩)
        ((hroots _ hmem).symm.trans (hdb.storageRoot addr _ htrie hz).symm)

end Commit

/-! ## Reading back -/

/-- What a successful `Stage` of a state its operations reached gives. -/
structure Staged (keccak256 : List UInt8 → List UInt8) (storageHash : TrieHash StorageTrie)
    (db : Db) (root : Bytes32) (newBlockNum newBlockConflicts : UInt32) (s : State) (st : Stage)
    (r : Replay) : Prop where
  sound : Sound keccak256 s
  committed : s.committed = Committed.load db root
  replays : Replays keccak256 db root s.sm.entries r
  save : saveChanges db newBlockNum newBlockConflicts storageHash r.changes.entries
    (db.openAccountTrie root) = .ok (st.accountTrie, st.storageCommits)
  root_ne : st.root ≠ Bytes32.zero
  codes : st.codes = r.codes

namespace Staged

variable {keccak256 : List UInt8 → List UInt8} {storageHash : TrieHash StorageTrie} {db : Db}
  {root : Bytes32} {newBlockNum newBlockConflicts : UInt32} {s : State} {st : Stage} {r : Replay}

lemma consistent (h : Staged keccak256 storageHash db root newBlockNum newBlockConflicts s st r) :
    Consistent keccak256 (Committed.load db root) s.sm.entries := by
  rw [← h.committed]
  exact h.sound.consistent.entries

lemma roots (h : Staged keccak256 storageHash db root newBlockNum newBlockConflicts s st r) :
    ∀ p ∈ st.storageCommits, p.1.2 = storageHash.hash p.2 := by
  rw [(saveChanges_eq_ok r.changes.nodupKeys h.save).2]
  intro p hp
  obtain ⟨q, -, hq⟩ := List.mem_filterMap.mp hp
  exact stageStorage_snd hq

lemma mem_commits (h : Staged keccak256 storageHash db root newBlockNum newBlockConflicts s st r)
    {addr : Address} {c : Changed} (hl : r.changes.lookup addr = some c)
    {p : (List UInt8 × Bytes32) × StorageTrie}
    (hp : (stageStorage db newBlockNum newBlockConflicts storageHash c).2 = some p) :
    p ∈ st.storageCommits := by
  rw [(saveChanges_eq_ok r.changes.nodupKeys h.save).2]
  exact List.mem_filterMap.mpr ⟨⟨addr, c⟩, AList.mem_lookup_iff.mp hl, hp⟩

lemma account (h : Staged keccak256 storageHash db root newBlockNum newBlockConflicts s st r)
    (addr : Address) :
    (loadAccount st.accountTrie addr).1.Restored
        (accountOf (Committed.load db root) s.sm.entries addr) ∧
      (¬(accountOf (Committed.load db root) s.sm.entries addr).IsEmpty →
        (loadAccount st.accountTrie addr).1 = (stageStorage db newBlockNum newBlockConflicts
          storageHash (Replay.getChanged db root r addr)).1.data ∧
        ((stageStorage db newBlockNum newBlockConflicts storageHash
            (Replay.getChanged db root r addr)).1.data.storageRoot.length > 0 →
          (loadAccount st.accountTrie addr).2 = (stageStorage db newBlockNum newBlockConflicts
            storageHash (Replay.getChanged db root r addr)).1.metadata)) := by
  have hdata := h.replays.data addr
  unfold loadAccount
  rw [(saveChanges_eq_ok r.changes.nodupKeys h.save).1 addr]
  cases hl : r.changes.entries.dlookup addr with
  | none =>
    -- an address the journal never touched keeps its committed entry
    have hg : Replay.getChanged db root r addr = ⟨(getCachedObject db root addr).data,
        (getCachedObject db root addr).metadata, []⟩ := by
      simp [Replay.getChanged, AList.lookup, hl]
    rw [hg] at hdata ⊢
    rw [stageStorage_of_nil rfl]
    refine ⟨Or.inl ?_, fun _ => ⟨rfl, fun _ => rfl⟩⟩
    rw [← hdata]
    rfl
  | some c =>
    have hg : Replay.getChanged db root r addr = c := by
      simp [Replay.getChanged, AList.lookup, hl]
    rw [hg] at hdata ⊢
    have hd := @stageStorage_data db newBlockNum newBlockConflicts storageHash c
    have hempty : (stageStorage db newBlockNum newBlockConflicts storageHash c).1.data.IsEmpty =
        (accountOf (Committed.load db root) s.sm.entries addr).IsEmpty := by
      rw [hd, ← hdata]
      rfl
    simp only
    by_cases he : (stageStorage db newBlockNum newBlockConflicts storageHash c).1.data.IsEmpty
    · rw [accountEntry, if_pos he]
      exact ⟨Or.inr ⟨hempty ▸ he, rfl⟩, fun hne => absurd (hempty ▸ he) hne⟩
    · rw [accountEntry, if_neg he]
      refine ⟨Or.inl ?_, fun _ => ⟨rfl, fun hpos => by simp [hpos]⟩⟩
      rw [← hdata]
      exact hd

lemma account_empty (h : Staged keccak256 storageHash db root newBlockNum newBlockConflicts s st r)
    (hdb : db.WellFormed keccak256 storageHash root) (addr : Address)
    (he : (accountOf (Committed.load db root) s.sm.entries addr).IsEmpty) :
    (loadAccount st.accountTrie addr).1 = emptyAccount := by
  have hdata := h.replays.data addr
  unfold loadAccount
  rw [(saveChanges_eq_ok r.changes.nodupKeys h.save).1 addr]
  cases hl : r.changes.entries.dlookup addr with
  | none =>
    -- an address the journal never touched keeps its committed entry, which is not empty
    have hg : Replay.getChanged db root r addr = ⟨(getCachedObject db root addr).data,
        (getCachedObject db root addr).metadata, []⟩ := by
      simp [Replay.getChanged, AList.lookup, hl]
    rw [hg] at hdata
    dsimp only
    cases ht : db.openAccountTrie root addr with
    | none => rfl
    | some p =>
      have hp : (getCachedObject db root addr).data = p.1 := by
        simp [getCachedObject, loadAccount, ht]
      rw [← hdata, hp] at he
      exact absurd he (hdb.nonEmpty addr p.1 p.2 ht)
  | some c =>
    have hg : Replay.getChanged db root r addr = c := by
      simp [Replay.getChanged, AList.lookup, hl]
    rw [hg] at hdata
    have hempty : (stageStorage db newBlockNum newBlockConflicts storageHash c).1.data.IsEmpty := by
      rw [stageStorage_data]
      change c.data.IsEmpty = true
      rw [hdata]
      exact he
    simp only [accountEntry, if_pos hempty]
    rfl

lemma getCode (h : Staged keccak256 storageHash db root newBlockNum newBlockConflicts s st r)
    (hk : Function.Injective keccak256)
    (hk0 : ∀ code, code.length > 0 → (keccak256 code).length > 0)
    (hdb : db.WellFormed keccak256 storageHash root) (addr : Address) {a : Account}
    (ha : a.codeHash = (accountOf (Committed.load db root) s.sm.entries addr).codeHash)
    (m : AccountMetadata) :
    (CachedObject.mk (st.commit db).2 a m).getCode =
      codeOf (Committed.load db root) s.sm.entries addr := by
  have hcw : st.codes = codeWrites keccak256 s.sm.entries := h.codes.trans h.replays.codes
  -- the stage commits each code under its hash, so a lookup by hash finds the code of that hash
  have hread : ∀ hash code, keccak256 code = hash → ((hash, code) ∈ st.codes ∨ db.codeStore hash = code) →
      (lastWrite st.codes hash).getD (db.codeStore hash) = code := by
    intro hash code hc hin
    cases hy : lastWrite st.codes hash with
    | none =>
      rcases hin with hin | hin
      · exact absurd hy (lastWrite_ne_none_of_mem hin)
      · exact hin
    | some y =>
      have hy' : hash = keccak256 y := eq_of_mem_codeWrites (hcw ▸ mem_of_lastWrite_eq_some hy)
      exact hk (hy'.symm.trans hc.symm)
  unfold CachedObject.getCode codeOf
  rw [codeStore_commit, ha, h.consistent.codeHash addr]
  cases hw : lastWrite s.sm.entries (.code addr) with
  | none =>
    show (if (getCachedObject db root addr).data.codeHash.length > 0 then
        (lastWrite st.codes (getCachedObject db root addr).data.codeHash).getD
          (db.codeStore (getCachedObject db root addr).data.codeHash) else []) =
      (if (getCachedObject db root addr).data.codeHash.length > 0 then
        db.codeStore (getCachedObject db root addr).data.codeHash else [])
    split_ifs with hpos
    · refine hread _ _ ?_ (Or.inr rfl)
      have hcode := hdb.code addr hpos
      rwa [CachedObject.getCode, if_pos hpos] at hcode
    · rfl
  | some v =>
    cases v with
    | code x =>
      show (if (codeHashOf keccak256 x).length > 0 then
          (lastWrite st.codes (codeHashOf keccak256 x)).getD (db.codeStore (codeHashOf keccak256 x))
          else []) = x
      unfold codeHashOf
      by_cases hx : x.length > 0
      · rw [if_pos hx, if_pos (hk0 x hx)]
        exact hread _ _ rfl (Or.inl (hcw ▸ mem_codeWrites (mem_of_lastWrite_eq_some hw) hx))
      · rw [if_neg hx, if_neg (by simp)]
        exact (List.eq_nil_of_length_eq_zero (by omega)).symm
    | _ => exact absurd (h.sound.readable.valid.kindOk hw) id

lemma base (h : Staged keccak256 storageHash db root newBlockNum newBlockConflicts s st r)
    (hdb : db.WellFormed keccak256 storageHash root) (addr : Address) (key : Bytes32) :
    db.openStorageTrie (storageTrieName (Replay.getChanged db root r addr).metadata.storageID)
        (BytesToBytes32 (Replay.getChanged db root r addr).data.storageRoot) key =
      if barrierOf s.sm.entries addr ≠ 0 then [] else (Committed.load db root).storage addr key := by
  have hroot := h.consistent.storageRoot addr
  rw [← h.replays.data addr, Committed.load_account] at hroot
  by_cases hb : barrierOf s.sm.entries addr = 0
  · rw [if_pos hb] at hroot
    rw [if_neg (not_not_intro hb), hroot, Committed.load_storage]
    unfold CachedObject.getStorage CachedObject.getOrCreateStorageTrie
    split_ifs with hR
    · rw [List.eq_nil_of_length_eq_zero hR, Bytes32.bytesToBytes32_nil, Db.openStorageTrie_zero]
    · rw [h.replays.storageID addr hb (hdb.storageID addr (by omega))]
      rfl
  · rw [if_neg hb] at hroot
    rw [if_pos hb, hroot, Bytes32.bytesToBytes32_nil, Db.openStorageTrie_zero]

lemma lookup_of_storage_ne_nil (addr : Address)
    (hs : (Replay.getChanged db root r addr).storage ≠ []) :
    r.changes.lookup addr = some (Replay.getChanged db root r addr) := by
  unfold Replay.getChanged at hs ⊢
  cases hl : r.changes.lookup addr with
  | none => simp [hl] at hs
  | some c => rfl

lemma getStorage (h : Staged keccak256 storageHash db root newBlockNum newBlockConflicts s st r)
    (hdb : db.WellFormed keccak256 storageHash root)
    (hcol : Set.InjOn storageHash.hash (db.storageTries root ∪ st.tries)) (addr : Address)
    (hne : ¬(accountOf (Committed.load db root) s.sm.entries addr).IsEmpty) {m : AccountMetadata}
    (hm : (stageStorage db newBlockNum newBlockConflicts storageHash
        (Replay.getChanged db root r addr)).1.data.storageRoot.length > 0 →
      m = (stageStorage db newBlockNum newBlockConflicts storageHash
        (Replay.getChanged db root r addr)).1.metadata) (key : Bytes32) :
    (CachedObject.mk (st.commit db).2 (stageStorage db newBlockNum newBlockConflicts storageHash
        (Replay.getChanged db root r addr)).1.data m).getStorage key =
      storageOf (Committed.load db root) s.sm.entries addr key := by
  have hdata := h.replays.data addr
  rw [storageOf_eq_rawOf, ← h.replays.storage addr key, ← h.base hdb addr key]
  unfold CachedObject.getStorage CachedObject.getOrCreateStorageTrie
  by_cases hs : (Replay.getChanged db root r addr).storage = []
  · -- nothing written since the last barrier: the record keeps the trie it had
    rw [stageStorage_of_nil hs] at hm ⊢
    rw [hs, lastWrite_nil, Option.getD_none]
    dsimp only
    split_ifs with hR
    · rw [List.eq_nil_of_length_eq_zero hR, Bytes32.bytesToBytes32_nil, Db.openStorageTrie_zero]
    · rw [hm (Nat.pos_of_ne_zero hR)]
      have hmeta := h.replays.metadata addr hs
      have hroot := h.consistent.storageRoot addr
      rw [← hdata, Committed.load_account] at hroot
      by_cases hb : barrierOf s.sm.entries addr = 0
      · rw [if_pos hb] at hmeta hroot
        rw [hroot] at hR
        rw [hmeta, hroot]
        exact congrFun (openStorageTrie_commit_of_committed hdb h.roots hcol addr (by omega)) key
      · rw [if_neg hb] at hroot
        exact absurd (by rw [hroot]; rfl) hR
  · -- the record's writes: its new trie is committed, and read back
    have hnec : ¬(Replay.getChanged db root r addr).data.IsEmpty := hdata ▸ hne
    obtain ⟨hroot, hcommit⟩ := @stageStorage_of_ne_nil db newBlockNum newBlockConflicts
      storageHash _ hnec hs
    have hmem := h.mem_commits (lookup_of_storage_ne_nil addr hs) hcommit
    have hpos : (storageHash.hash (newStorageTrie db (Replay.getChanged db root r addr))).bytes.length >
        0 := by
      rw [Bytes32.length_eq]
      omega
    rw [hroot] at hm ⊢
    rw [if_neg (by omega), hm hpos, stageStorage_storageID, Bytes32.bytesToBytes32_bytes]
    dsimp only
    rw [openStorageTrie_commit_of_mem h.roots (hcol.mono Set.subset_union_right) hmem]
    unfold newStorageTrie saveStorage
    exact foldl_update_apply _ _ _

lemma getCachedObject_commit
    (h : Staged keccak256 storageHash db root newBlockNum newBlockConflicts s st r) (addr : Address) :
    getCachedObject (st.commit db).2 (st.commit db).1 addr =
      ⟨(st.commit db).2, (loadAccount st.accountTrie addr).1, (loadAccount st.accountTrie addr).2⟩ := by
  unfold getCachedObject
  rw [openAccountTrie_commit h.root_ne]

lemma readsBack (h : Staged keccak256 storageHash db root newBlockNum newBlockConflicts s st r)
    (hk : Function.Injective keccak256)
    (hk0 : ∀ code, code.length > 0 → (keccak256 code).length > 0)
    (hdb : db.WellFormed keccak256 storageHash root)
    (hcol : Set.InjOn storageHash.hash (db.storageTries root ∪ st.tries)) (addr : Address) :
    ReadsBack s (new (Committed.load (st.commit db).2 (st.commit db).1)) addr := by
  obtain ⟨hrest, hsame⟩ := h.account addr
  obtain ⟨hb, he, hm, hc⟩ := hrest.fields
  have hacc := h.sound.readable.getAccount_eq addr
  rw [h.committed] at hacc
  have hnew : (new (Committed.load (st.commit db).2 (st.commit db).1)).getAccount addr =
      some (loadAccount st.accountTrie addr).1 := by
    rw [new_getAccount, Committed.load_account, h.getCachedObject_commit]
  -- only an account that exists keeps its block time and its storage
  have hexists : s.Exists addr = some true →
      ¬(accountOf (Committed.load db root) s.sm.entries addr).IsEmpty := by
    intro hex
    simpa [State.Exists, hacc] using hex
  refine ⟨?_, fun t => ?_, ?_, ?_, ?_, fun hex => ?_, fun hex key => ?_, fun hex => ?_⟩
  · simp only [State.getBalance, hnew, hacc, Option.map_some, hb]
  · simp only [State.getEnergy, hnew, hacc, Option.map_some, hrest.calcEnergy]
  · simp only [State.getMaster, hnew, hacc, Option.map_some, hm]
  · rw [new_getCode, h.sound.readable.getCode_eq, h.committed, Committed.load_code,
      h.getCachedObject_commit]
    exact congrArg some (h.getCode hk hk0 hdb addr hc _)
  · simp only [State.getCodeHash, hnew, hacc, Option.map_some, hc]
  · simp only [hnew, hacc, Option.map_some, hrest.blockTime (hexists hex)]
  · obtain ⟨hdata, hmeta⟩ := hsame (hexists hex)
    rw [new_getRawStorage, h.sound.readable.getRawStorage_eq, h.committed, Committed.load_storage,
      h.getCachedObject_commit, hdata]
    exact congrArg some (h.getStorage hdb hcol addr (hexists hex) hmeta key)
  · have he : (accountOf (Committed.load db root) s.sm.entries addr).IsEmpty := by
      simpa [State.Exists, hacc] using hex
    rw [hnew, h.account_empty hdb addr he]

end Staged

theorem stage_commit_reads_back (keccak256 : List UInt8 → List UInt8)
    (storageHash : TrieHash StorageTrie) (accountHash : TrieHash AccountTrie) (db : Db)
    (root : Bytes32) (ops : List Op) (s : State) (newBlockNum newBlockConflicts : UInt32)
    (st : Stage) (hk : Function.Injective keccak256)
    (hk0 : ∀ code, code.length > 0 → (keccak256 code).length > 0)
    (hdb : db.WellFormed keccak256 storageHash root)
    (hrun : State.run keccak256 (new (Committed.load db root)) ops = some s)
    (hst : s.stage keccak256 db root storageHash accountHash newBlockNum newBlockConflicts =
      some (.ok st))
    (hcol : Set.InjOn storageHash.hash (db.storageTries root ∪ st.tries)) :
    st.hash = (st.commit db).1 ∧
      ∀ addr, ReadsBack s (new (Committed.load (st.commit db).2 (st.commit db).1)) addr := by
  have hsound := (sound_new (Committed.load db root)).run hrun
  obtain ⟨r, hrep, hsave, hroot, hcodes⟩ := stage_eq_ok hsound.readable hst
  have h : Staged keccak256 storageHash db root newBlockNum newBlockConflicts s st r :=
    ⟨hsound, run_committed keccak256 hrun, hrep, hsave, hroot ▸ accountHash.ne_zero _, hcodes⟩
  exact ⟨rfl, fun addr => h.readsBack hk hk0 hdb hcol addr⟩

theorem stage_commit_reads_back_storage_write :
    ∃ s, State.run id (new (Committed.load ⟨fun _ _ => none, fun _ _ => [], fun _ => []⟩
        Bytes32.zero)) [.setBalance Address.zero 1, .setRawStorage Address.zero Bytes32.zero [1]] =
        some s ∧
      ∃ st, s.stage id ⟨fun _ _ => none, fun _ _ => [], fun _ => []⟩ Bytes32.zero
        ⟨fun _ => ⟨List.replicate 31 0 ++ [1], rfl⟩, fun _ => by decide⟩
        ⟨fun _ => ⟨List.replicate 31 0 ++ [1], rfl⟩, fun _ => by decide⟩ 1 0 = some (.ok st) ∧
      st.hash = (st.commit ⟨fun _ _ => none, fun _ _ => [], fun _ => []⟩).1 ∧
      ∀ addr, ReadsBack s
        (new (Committed.load (st.commit ⟨fun _ _ => none, fun _ _ => [], fun _ => []⟩).2
          (st.commit ⟨fun _ _ => none, fun _ _ => [], fun _ => []⟩).1)) addr := by
  refine ⟨_, rfl, _, rfl, stage_commit_reads_back id _ _ _ _
    [.setBalance Address.zero 1, .setRawStorage Address.zero Bytes32.zero [1]] _ 1 0 _
    Function.injective_id (fun _ h => h)
    ⟨fun _ _ _ h => ?_, fun _ h => ?_, fun _ h => ?_, fun _ _ h => ?_⟩ rfl rfl ?_⟩
  · simp [Db.openAccountTrie] at h
  · simp [getCachedObject, loadAccount, Db.openAccountTrie, emptyAccount] at h
  · simp [getCachedObject, loadAccount, Db.openAccountTrie, emptyAccount] at h
  · simp [getCachedObject, loadAccount, Db.openAccountTrie, emptyAccount,
      CachedObject.getOrCreateStorageTrie] at h
  -- the empty database has no storage trie and the stage commits one
  · refine Set.Subsingleton.injOn ?_ _
    have hl : ∀ {p q : (List UInt8 × Bytes32) × StorageTrie} (l : List _), p ∈ l → q ∈ l →
        l.length = 1 → p = q := by
      intro p q l hp hq h1
      obtain ⟨x, rfl⟩ := List.length_eq_one_iff.mp h1
      rw [List.mem_singleton] at hp hq
      rw [hp, hq]
    rintro a (⟨_, ha⟩ | ⟨p, hp, rfl⟩) b (⟨_, hb⟩ | ⟨q, hq, rfl⟩)
    · simp [getCachedObject, loadAccount, Db.openAccountTrie, emptyAccount,
        CachedObject.getOrCreateStorageTrie] at ha
    · simp [getCachedObject, loadAccount, Db.openAccountTrie, emptyAccount,
        CachedObject.getOrCreateStorageTrie] at ha
    · simp [getCachedObject, loadAccount, Db.openAccountTrie, emptyAccount,
        CachedObject.getOrCreateStorageTrie] at hb
    · rw [hl _ hp hq rfl]

/-- An account that only had its energy and block time set is empty, so the stage deletes it
and it reads back with block time zero. -/
theorem stage_commit_resets_empty_block_time :
    ∃ s st, State.run id (new (Committed.load ⟨fun _ _ => none, fun _ _ => [], fun _ => []⟩
        Bytes32.zero)) [.setEnergy Address.zero 0 5] = some s ∧
      s.stage id ⟨fun _ _ => none, fun _ _ => [], fun _ => []⟩ Bytes32.zero
        ⟨fun _ => ⟨List.replicate 31 0 ++ [1], rfl⟩, fun _ => by decide⟩
        ⟨fun _ => ⟨List.replicate 31 0 ++ [1], rfl⟩, fun _ => by decide⟩ 1 0 = some (.ok st) ∧
      (s.getAccount Address.zero).map Account.blockTime = some 5 ∧
      ((new (Committed.load (st.commit ⟨fun _ _ => none, fun _ _ => [], fun _ => []⟩).2
          (st.commit ⟨fun _ _ => none, fun _ _ => [], fun _ => []⟩).1)).getAccount
        Address.zero).map Account.blockTime = some 0 := by
  refine ⟨_, _, rfl, rfl, ?_, ?_⟩ <;> decide +kernel

end AuthorityBlock.State
