import AuthorityBlock.State.State

/-! A plain world for the state to be compared with: each address holds its account, its code
and its storage, raw as the state stores it. `Delete` empties the address; checkpoints form a
stack of saved worlds below the current one. -/

namespace AuthorityBlock.State

@[ext] structure Plain where
  account : Account
  code : List UInt8
  storage : Bytes32 → List UInt8

def Plain.empty : Plain := ⟨emptyAccount, [], fun _ => []⟩

def Plain.ofCommitted (c : Committed) (addr : Address) : Plain :=
  ⟨c.account addr, c.code addr, c.storage addr⟩

structure Reference where
  snapshots : List (Address → Plain)
  world : Address → Plain

namespace Reference

def init (c : Committed) : Reference := ⟨[], Plain.ofCommitted c⟩

def modify (r : Reference) (addr : Address) (f : Plain → Plain) : Reference :=
  { r with world := Function.update r.world addr (f (r.world addr)) }

def setAccount (p : Plain) (f : Account → Account) : Plain := { p with account := f p.account }

/-- `RevertTo(revision)` goes back to the world saved by the `NewCheckpoint` that returned
`revision`, the `revision`-th snapshot; a later revision is a no-op. -/
def revertTo (r : Reference) (revision : ℕ) : Option Reference :=
  -- `PopTo(0)` also pops the base level, and the state cannot be written any more
  if revision = 0 then none
  else
    match r.snapshots[revision - 1]? with
    | some w => some ⟨r.snapshots.take (revision - 1), w⟩
    | none => some r

def apply (keccak256 : List UInt8 → List UInt8) : Op → Reference → Option Reference
  | .setBalance addr balance, r =>
    some (r.modify addr fun p => setAccount p fun a => { a with balance })
  | .setEnergy addr energy blockTime, r =>
    some (r.modify addr fun p => setAccount p fun a => { a with energy, blockTime })
  | .setMaster addr master, r =>
    some (r.modify addr fun p => setAccount p fun a =>
      { a with master := if master.IsZero then [] else master.bytes })
  | .setCode addr code, r =>
    some (r.modify addr fun p => { setAccount p (fun a =>
      { a with codeHash := if code.length > 0 then keccak256 code else [] }) with code })
  | .setStorage addr key value, r =>
    some (r.modify addr fun p => { p with storage := Function.update p.storage key (encodeStorage value) })
  | .setRawStorage addr key raw, r =>
    some (r.modify addr fun p => { p with storage := Function.update p.storage key raw })
  | .delete addr, r => some (r.modify addr fun _ => Plain.empty)
  | .newCheckpoint, r => some ⟨r.snapshots ++ [r.world], r.world⟩
  | .revertTo revision, r => r.revertTo revision

def run (keccak256 : List UInt8 → List UInt8) : Reference → List Op → Option Reference
  | r, [] => some r
  | r, op :: ops => (apply keccak256 op r).bind (run keccak256 · ops)

/-- The stack of worlds, oldest first, with the current one on top. -/
def worlds (r : Reference) : List (Address → Plain) := r.snapshots ++ [r.world]

lemma worlds_revertTo {r r' : Reference} {revision : ℕ} (h : r.revertTo revision = some r') :
    0 < revision ∧ r'.worlds = r.worlds.take revision := by
  unfold revertTo at h
  split_ifs at h with h0
  refine ⟨Nat.pos_of_ne_zero h0, ?_⟩
  split at h
  · next w hw =>
    cases h
    obtain ⟨hlt, rfl⟩ := List.getElem?_eq_some_iff.mp hw
    obtain ⟨k, rfl⟩ : ∃ k, revision = k + 1 := ⟨revision - 1, by omega⟩
    simp only [Nat.add_sub_cancel] at hlt ⊢
    rw [worlds, worlds, List.take_append_of_le_length (by omega), List.take_add_one,
      List.getElem?_eq_getElem hlt]
    rfl
  · next hw =>
    cases h
    rw [List.getElem?_eq_none_iff] at hw
    rw [List.take_of_length_le (by simp [worlds]; omega)]

end Reference

end AuthorityBlock.State
