import AuthorityBlock.State.Stage
import AuthorityBlock.State.Consistent

/-! What `Stage` makes of a journal. Replaying a valid journal never panics and leaves, for
every address, the change record that stands for the journal's net effect: the account the
state reads, the storage writes under the current barrier and the metadata the last barrier
left (`Replays`). The save loop then writes each record once into the account trie. -/

namespace AuthorityBlock.State

open WriteLog StackedMap

/-- The storage value a journal holds for a key: the last write under the current barrier. -/
def rawOf (es : List (Key × Value)) (addr : Address) (key : Bytes32) : Option (List UInt8) :=
  match lastWrite es (.storage addr (barrierOf es addr) key) with
  | some (.raw raw) => some raw
  | _ => none

def codeWrites (keccak256 : List UInt8 → List UInt8) (es : List (Key × Value)) :
    List (List UInt8 × List UInt8) :=
  es.filterMap fun
    | (.code _, .code code) => if code.length > 0 then some (keccak256 code, code) else none
    | _ => none

section Entry

variable {es : List (Key × Value)}

@[simp] lemma rawOf_concat_of_ne {k : Key} (hk : ∀ a b key, k ≠ .storage a b key)
    (hb : ∀ a, k ≠ .storageBarrier a) (v : Value) (addr : Address) (key : Bytes32) :
    rawOf (es ++ [(k, v)]) addr key = rawOf es addr key := by
  unfold rawOf
  rw [barrierOf_concat_of_ne hb, lastWrite_concat, if_neg (hk _ _ _)]

lemma rawOf_concat_storage (addr addr' : Address) (key key' : Bytes32) (raw : List UInt8) :
    rawOf (es ++ [(.storage addr (barrierOf es addr) key, .raw raw)]) addr' key' =
      if addr = addr' ∧ key = key' then some raw else rawOf es addr' key' := by
  unfold rawOf
  rw [barrierOf_concat_of_ne (by simp), lastWrite_concat]
  by_cases ha : addr = addr' ∧ key = key'
  · obtain ⟨rfl, rfl⟩ := ha
    simp
  · rw [if_neg ha, if_neg]
    rintro ⟨⟩
    exact ha ⟨rfl, rfl⟩

lemma rawOf_concat_barrier (hv : Valid es) (addr addr' : Address) (key : Bytes32) :
    rawOf (es ++ [(.storageBarrier addr, .barrier (barrierOf es addr + 1))]) addr' key =
      if addr = addr' then none else rawOf es addr' key := by
  unfold rawOf
  rw [barrierOf_concat_barrier, lastWrite_concat, if_neg (by simp)]
  split_ifs with ha
  · subst ha
    cases hw : lastWrite es (.storage addr (barrierOf es addr + 1) key) with
    | none => rfl
    | some v =>
      have := hv.le_barrierOf hw
      omega
  · rfl

@[simp] lemma codeWrites_concat (keccak256 : List UInt8 → List UInt8) (e : Key × Value) :
    codeWrites keccak256 (es ++ [e]) = codeWrites keccak256 es ++ codeWrites keccak256 [e] := by
  simp [codeWrites, List.filterMap_append]

end Entry

section Replay

variable (keccak256 : List UInt8 → List UInt8) (db : Db) (root : Bytes32)

structure Replays (es : List (Key × Value)) (r : Replay) : Prop where
  data : ∀ addr,
    (Replay.getChanged db root r addr).data = accountOf (Committed.load db root) es addr
  storage : ∀ addr key, lastWrite (Replay.getChanged db root r addr).storage key = rawOf es addr key
  metadata : ∀ addr, (Replay.getChanged db root r addr).storage = [] →
    (Replay.getChanged db root r addr).metadata =
      if barrierOf es addr = 0 then (getCachedObject db root addr).metadata else emptyMetadata
  storageID : ∀ addr, barrierOf es addr = 0 →
    (getCachedObject db root addr).metadata.storageID.length > 0 →
      (Replay.getChanged db root r addr).metadata.storageID =
        (getCachedObject db root addr).metadata.storageID
  codes : r.codes = codeWrites keccak256 es

variable {keccak256 db root}

lemma getChanged_insert {r r' : Replay} {a : Address} {c : Changed}
    (hr : r'.changes = r.changes.insert a c) (addr : Address) :
    Replay.getChanged db root r' addr = if addr = a then c else Replay.getChanged db root r addr := by
  unfold Replay.getChanged
  rw [hr]
  by_cases ha : addr = a
  · subst ha
    simp [AList.lookup_insert]
  · simp [AList.lookup_insert_ne ha, ha]

lemma replays_nil : Replays keccak256 db root [] ⟨∅, [], 0⟩ :=
  ⟨fun addr => rfl, fun addr key => by simp [Replay.getChanged, rawOf],
    fun addr _ => by simp [Replay.getChanged, barrierOf],
    fun addr _ _ => rfl, by simp [codeWrites]⟩

lemma replayEntry_isSome (newBlockNum newBlockConflicts : UInt32) (r : Replay) {k : Key} {v : Value}
    (hk : KindOk k v) :
    ∃ r', replayEntry keccak256 db root newBlockNum newBlockConflicts r k v = some r' := by
  cases k <;> cases v <;> first
    | exact absurd hk id
    | exact ⟨_, rfl⟩
    | (simp only [replayEntry]; split_ifs <;> exact ⟨_, rfl⟩)

section Steps

variable {es : List (Key × Value)} {r r' : Replay}

lemma Replays.accountEntry (h : Replays keccak256 db root es r)
    {newBlockNum newBlockConflicts : UInt32} (a : Address) (acc : Account)
    (hr : replayEntry keccak256 db root newBlockNum newBlockConflicts r (.account a) (.account acc) =
      some r') :
    Replays keccak256 db root (es ++ [(.account a, .account acc)]) r' := by
  have hch : r'.changes = r.changes.insert a { Replay.getChanged db root r a with data := acc } := by
    cases hr
    rfl
  have hcodes : r'.codes = r.codes := by
    cases hr
    rfl
  have hc := @getChanged_insert db root _ _ _ _ hch
  constructor
  · intro addr
    by_cases ha : addr = a
    · subst ha
      simp [hc]
    · simpa [hc, ha, Ne.symm ha] using h.data addr
  · intro addr key
    by_cases ha : addr = a
    · subst ha
      simpa [hc] using h.storage addr key
    · simpa [hc, ha] using h.storage addr key
  · intro addr
    by_cases ha : addr = a
    · subst ha
      simpa [hc] using h.metadata addr
    · simpa [hc, ha] using h.metadata addr
  · intro addr
    by_cases ha : addr = a
    · subst ha
      simpa [hc] using h.storageID addr
    · simpa [hc, ha] using h.storageID addr
  · simpa [hcodes, codeWrites] using h.codes

lemma Replays.codeEntry (h : Replays keccak256 db root es r) (a : Address) (code : List UInt8) :
    Replays keccak256 db root (es ++ [(.code a, .code code)])
      (if code.length > 0 then { r with codes := r.codes ++ [(keccak256 code, code)] } else r) := by
  have hc : ∀ addr, Replay.getChanged db root
      (if code.length > 0 then { r with codes := r.codes ++ [(keccak256 code, code)] } else r) addr =
        Replay.getChanged db root r addr := by
    intro addr
    split_ifs <;> rfl
  refine ⟨fun addr => ?_, fun addr key => ?_, fun addr => ?_, fun addr => ?_, ?_⟩
  · simpa [hc] using h.data addr
  · simpa [hc] using h.storage addr key
  · simpa [hc] using h.metadata addr
  · simpa [hc] using h.storageID addr
  · split_ifs with hx <;> simp [codeWrites, hx, h.codes]

lemma replayEntry_storage {newBlockNum newBlockConflicts : UInt32} {a : Address} {b : ℕ}
    {key : Bytes32} {raw : List UInt8}
    (hr : replayEntry keccak256 db root newBlockNum newBlockConflicts r (.storage a b key) (.raw raw) =
      some r') :
    ∃ m, ((Replay.getChanged db root r a).metadata.storageID.length > 0 →
        m = (Replay.getChanged db root r a).metadata) ∧
      r'.changes = r.changes.insert a { Replay.getChanged db root r a with
        storage := (Replay.getChanged db root r a).storage ++ [(key, raw)], metadata := m } ∧
      r'.codes = r.codes := by
  simp only [replayEntry] at hr
  split_ifs at hr with hid
  · cases hr
    exact ⟨_, fun hpos => absurd hid (by omega), rfl, rfl⟩
  · cases hr
    exact ⟨_, fun _ => rfl, rfl, rfl⟩

lemma Replays.storageEntry (h : Replays keccak256 db root es r) {newBlockNum newBlockConflicts : UInt32}
    (a : Address) (key : Bytes32) (raw : List UInt8)
    (hr : replayEntry keccak256 db root newBlockNum newBlockConflicts r
      (.storage a (barrierOf es a) key) (.raw raw) = some r') :
    Replays keccak256 db root (es ++ [(.storage a (barrierOf es a) key, .raw raw)]) r' := by
  obtain ⟨m, hm, hch, hcodes⟩ := replayEntry_storage hr
  have hc := @getChanged_insert db root _ _ _ _ hch
  refine ⟨fun addr => ?_, fun addr key' => ?_, fun addr => ?_, fun addr => ?_, ?_⟩
  · by_cases ha : addr = a
    · subst ha
      simpa [hc] using h.data addr
    · simpa [hc, ha] using h.data addr
  · rw [rawOf_concat_storage]
    by_cases ha : addr = a
    · subst ha
      by_cases hk : key = key'
      · subst hk
        simp [hc]
      · simpa [hc, hk] using h.storage addr key'
    · simpa [hc, ha, Ne.symm ha] using h.storage addr key'
  · by_cases ha : addr = a
    · subst ha
      simp [hc]
    · simpa [hc, ha] using h.metadata addr
  · by_cases ha : addr = a
    · subst ha
      intro hb hpos
      have hid := h.storageID addr (by simpa using hb) hpos
      rw [hc, if_pos rfl]
      rw [← hid] at hpos
      rw [hm hpos, hid]
    · simpa [hc, ha] using h.storageID addr
  · simpa [hcodes, codeWrites] using h.codes

lemma Replays.barrierEntry (h : Replays keccak256 db root es r) (hv : Valid es)
    {newBlockNum newBlockConflicts : UInt32} (a : Address) {v : Value}
    (hr : replayEntry keccak256 db root newBlockNum newBlockConflicts r (.storageBarrier a) v =
      some r') :
    Replays keccak256 db root (es ++ [(.storageBarrier a, .barrier (barrierOf es a + 1))]) r' := by
  have hch : r'.changes = r.changes.insert a
      { Replay.getChanged db root r a with storage := [], metadata := emptyMetadata } := by
    cases hr
    rfl
  have hcodes : r'.codes = r.codes := by
    cases hr
    rfl
  have hc := @getChanged_insert db root _ _ _ _ hch
  refine ⟨fun addr => ?_, fun addr key => ?_, fun addr => ?_, fun addr => ?_, ?_⟩
  · by_cases ha : addr = a
    · subst ha
      simpa [hc] using h.data addr
    · simpa [hc, ha] using h.data addr
  · rw [rawOf_concat_barrier hv]
    by_cases ha : addr = a
    · subst ha
      simp [hc]
    · simpa [hc, ha, Ne.symm ha] using h.storage addr key
  · by_cases ha : addr = a
    · subst ha
      simp [hc]
    · simpa [hc, ha, Ne.symm ha] using h.metadata addr
  · by_cases ha : addr = a
    · subst ha
      simp
    · simpa [hc, ha, Ne.symm ha] using h.storageID addr
  · simpa [hcodes, codeWrites] using h.codes

lemma Replays.step (h : Replays keccak256 db root es r) (hv : Valid es)
    {newBlockNum newBlockConflicts : UInt32} {k : Key} {v : Value} (he : EntryOk es (k, v))
    (hr : replayEntry keccak256 db root newBlockNum newBlockConflicts r k v = some r') :
    Replays keccak256 db root (es ++ [(k, v)]) r' := by
  cases k with
  | account a =>
    cases v with
    | account acc => exact h.accountEntry a acc hr
    | _ => exact absurd he id
  | code a =>
    cases v with
    | code code =>
      cases hr
      exact h.codeEntry a code
    | _ => exact absurd he id
  | storage a b key =>
    cases v with
    | raw raw =>
      change b = barrierOf es a at he
      subst he
      exact h.storageEntry a key raw hr
    | _ => exact absurd he id
  | storageBarrier a =>
    cases v with
    | barrier b =>
      change b = barrierOf es a + 1 at he
      subst he
      exact h.barrierEntry hv a hr
    | _ => exact absurd he id

end Steps

lemma replays_foldl (newBlockNum newBlockConflicts : UInt32) {es : List (Key × Value)}
    (hv : Valid es) :
    ∃ r, es.foldl (fun o e => o.bind fun r =>
        replayEntry keccak256 db root newBlockNum newBlockConflicts r e.1 e.2) (some ⟨∅, [], 0⟩) =
      some r ∧ Replays keccak256 db root es r := by
  induction es using List.reverseRecOn with
  | nil => exact ⟨_, rfl, replays_nil⟩
  | append_singleton es e ih =>
    obtain ⟨hv', he⟩ := valid_concat_iff.mp hv
    obtain ⟨r, hr, hrep⟩ := ih hv'
    obtain ⟨k, v⟩ := e
    obtain ⟨r', hr'⟩ := @replayEntry_isSome keccak256 db root newBlockNum newBlockConflicts r _ _
      he.kindOk
    refine ⟨r', ?_, hrep.step hv' he hr'⟩
    rw [List.foldl_append, hr]
    exact hr'

end Replay

/-! ## Saving -/

/-- What `saveAccount` leaves in the trie for an account. -/
def accountEntry (a : Account) (am : AccountMetadata) : Option (Account × AccountMetadata) :=
  if a.IsEmpty then none else some (a, if a.storageRoot.length > 0 then am else emptyMetadata)

lemma saveAccount_eq_ok {trie trie' : AccountTrie} {addr : Address} {a : Account}
    {am : AccountMetadata} (h : saveAccount trie addr a am = .ok trie') :
    trie' = Function.update trie addr (accountEntry a am) := by
  unfold saveAccount at h
  by_cases he : a.IsEmpty
  · rw [if_pos he] at h
    cases h
    simp [accountEntry, he]
  · rw [if_neg he] at h
    by_cases hn : a.balance < 0 ∨ a.energy < 0
    · rw [if_pos hn] at h
      cases h
    · rw [if_neg hn] at h
      cases h
      simp [accountEntry, he]

lemma bind_eq_ok {ε α β : Type} {x : Except ε α} {f : α → Except ε β} {b : β}
    (h : (x >>= f) = .ok b) : ∃ a, x = .ok a ∧ f a = .ok b := by
  cases x with
  | error e => cases h
  | ok a => exact ⟨a, rfl, h⟩

section Save

variable {db : Db} {newBlockNum newBlockConflicts : UInt32} {storageHash : TrieHash StorageTrie}

lemma saveChanges_eq_ok {cs : List (Σ _ : Address, Changed)} {trie trie' : AccountTrie}
    {commits : List ((List UInt8 × Bytes32) × StorageTrie)} (hn : cs.NodupKeys)
    (h : saveChanges db newBlockNum newBlockConflicts storageHash cs trie = .ok (trie', commits)) :
    (∀ addr, trie' addr =
      match cs.dlookup addr with
      | some c => accountEntry (stageStorage db newBlockNum newBlockConflicts storageHash c).1.data
          (stageStorage db newBlockNum newBlockConflicts storageHash c).1.metadata
      | none => trie addr) ∧
    commits = cs.filterMap fun p => (stageStorage db newBlockNum newBlockConflicts storageHash p.2).2 := by
  induction cs generalizing trie trie' commits with
  | nil =>
    cases h
    exact ⟨fun _ => rfl, rfl⟩
  | cons p cs ih =>
    obtain ⟨a, c⟩ := p
    obtain ⟨ha, hn'⟩ := List.nodupKeys_cons.mp hn
    rcases hs : stageStorage db newBlockNum newBlockConflicts storageHash c with ⟨c', commit⟩
    simp only [saveChanges, hs] at h
    obtain ⟨trie₁, h₁, h'⟩ := bind_eq_ok h
    obtain ⟨⟨trie₂, commits₂⟩, h₂, h₃⟩ := bind_eq_ok h'
    cases h₃
    obtain ⟨htrie, hcommits⟩ := ih hn' h₂
    refine ⟨fun addr => ?_, ?_⟩
    · rw [show (trie₂, commits₂).1 = trie₂ from rfl, htrie, saveAccount_eq_ok h₁]
      by_cases hx : addr = a
      · subst hx
        simp [List.dlookup_eq_none.mpr ha, hs]
      · have hl : (⟨a, c⟩ :: cs : List (Σ _ : Address, Changed)).dlookup addr = cs.dlookup addr :=
          List.dlookup_cons_ne cs ⟨a, c⟩ hx
        rw [hl]
        cases List.dlookup addr cs <;> simp [Function.update_of_ne hx]
    · have hc : (stageStorage db newBlockNum newBlockConflicts storageHash c).2 = commit := by
        rw [hs]
      rw [hcommits, List.filterMap_cons]
      simp only [hc]
      cases commit <;> rfl

lemma stage_eq_ok {keccak256 : List UInt8 → List UInt8} {root : Bytes32}
    {accountHash : TrieHash AccountTrie} {s : State} {st : Stage} (hs : s.Readable)
    (h : s.stage keccak256 db root storageHash accountHash newBlockNum newBlockConflicts =
      some (.ok st)) :
    ∃ r, Replays keccak256 db root s.sm.entries r ∧
      saveChanges db newBlockNum newBlockConflicts storageHash r.changes.entries
        (db.openAccountTrie root) = .ok (st.accountTrie, st.storageCommits) ∧
      st.root = accountHash.hash st.accountTrie ∧ st.codes = r.codes := by
  obtain ⟨r, hr, hrep⟩ := @replays_foldl keccak256 db root newBlockNum newBlockConflicts _ hs.valid
  have hj : s.sm.journal (fun k v o => (true, o.bind fun r =>
      replayEntry keccak256 db root newBlockNum newBlockConflicts r k v)) (some ⟨∅, [], 0⟩) =
        some r := by
    exact (traverse_eq_foldl _ (fun (o : Option Replay) (e : Key × Value) => o.bind fun r =>
      replayEntry keccak256 db root newBlockNum newBlockConflicts r e.1 e.2)
        (fun _ _ _ => rfl) _ _).trans hr
  rw [State.stage, hj, Option.map_some, Option.some.injEq] at h
  cases hsave : saveChanges db newBlockNum newBlockConflicts storageHash r.changes.entries
      (db.openAccountTrie root) with
  | error e =>
    rw [hsave] at h
    cases h
  | ok p =>
    obtain ⟨trie, commits⟩ := p
    rw [hsave] at h
    cases h
    exact ⟨r, hrep, hsave, rfl, rfl⟩

end Save

end AuthorityBlock.State
