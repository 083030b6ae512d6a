import AuthorityBlock.Ablock.Types
import AuthorityBlock.Lib.CountMap
import Mathlib

/-! The model of `txpool/tx_object_map.go`: the pool's objects indexed by transaction hash and
by transaction ID, with a count of the objects of each origin.

`Consistent` is what every run keeps: an object sits in `mapByHash` under its hash, every
entry of `mapByID` is an object held by hash and filed under its ID, and `quota` counts the
origins of the objects held. The converse of the second field fails: two transactions that
share an ID overwrite each other's `mapByID` entry, and removing either leaves the other
reachable by hash only. -/

namespace AuthorityBlock.Txpool

open CountMap

/-- What the map reads of a pooled transaction. `Hash` covers the signatures, `ID` only the
signing hash and the origin, so one origin signature with two delegator signatures gives two
transactions of one ID and two hashes. -/
structure TxObject where
  hash : Bytes32
  id : Bytes32
  origin : Address
deriving DecidableEq

structure TxObjectMap where
  mapByHash : AList fun _ : Bytes32 => TxObject
  mapByID : AList fun _ : Bytes32 => TxObject
  quota : AList fun _ : Address => ℕ

def newTxObjectMap : TxObjectMap := ⟨∅, ∅, ∅⟩

namespace TxObjectMap

variable (m : TxObjectMap)

def containsHash (txHash : Bytes32) : Bool := (m.mapByHash.lookup txHash).isSome

/-- The three writes that `Add` and `Fill` make for an object not held yet. -/
def put (txObj : TxObject) : TxObjectMap :=
  ⟨m.mapByHash.insert txObj.hash txObj, m.mapByID.insert txObj.id txObj,
    incr m.quota txObj.origin⟩

def add (txObj : TxObject) (limitPerAccount : ℤ) : Except String TxObjectMap :=
  if m.containsHash txObj.hash then .ok m
  else if (get m.quota txObj.origin : ℤ) ≥ limitPerAccount then .error "account quota exceeded"
  else .ok (m.put txObj)

def getByID (id : Bytes32) : Option TxObject := m.mapByID.lookup id

def removeByHash (txHash : Bytes32) : TxObjectMap × Bool :=
  match m.mapByHash.lookup txHash with
  | some txObj =>
    (⟨m.mapByHash.erase txHash, m.mapByID.erase txObj.id, decr m.quota txObj.origin⟩, true)
  | none => (m, false)

/-- `Fill` puts every object not held yet, with no account limit check. -/
def fill (txObjs : List TxObject) : TxObjectMap :=
  txObjs.foldl (fun acc txObj => if acc.containsHash txObj.hash then acc else acc.put txObj) m

/-- The origins of the objects held, one for each object. -/
def origins : Multiset Address := Multiset.map TxObject.origin (values m.mapByHash)

variable {m}

lemma containsHash_eq_false {txHash : Bytes32} :
    m.containsHash txHash = false ↔ m.mapByHash.lookup txHash = none := by
  simp [containsHash]

lemma origins_put {txObj : TxObject} (h : m.mapByHash.lookup txObj.hash = none) :
    (m.put txObj).origins = txObj.origin ::ₘ m.origins := by
  simp only [origins, put, values_insert_of_lookup_eq_none txObj h, Multiset.map_cons]

lemma origins_erase {txHash : Bytes32} {txObj : TxObject}
    (h : m.mapByHash.lookup txHash = some txObj) :
    Multiset.map TxObject.origin (values (m.mapByHash.erase txHash)) =
      m.origins.erase txObj.origin := by
  rw [origins, ← cons_values_erase h, Multiset.map_cons, Multiset.erase_cons_head]

lemma add_eq_ok {txObj : TxObject} {limitPerAccount : ℤ} {m' : TxObjectMap}
    (h : m.add txObj limitPerAccount = .ok m') :
    (m.mapByHash.lookup txObj.hash ≠ none ∧ m' = m) ∨
      (m.mapByHash.lookup txObj.hash = none ∧ (get m.quota txObj.origin : ℤ) < limitPerAccount ∧
        m' = m.put txObj) := by
  unfold add at h
  by_cases hc : m.containsHash txObj.hash = true
  · rw [if_pos hc] at h
    refine .inl ⟨by simpa [containsHash, Option.isSome_iff_ne_none] using hc, ?_⟩
    exact (Except.ok.inj h).symm
  · rw [if_neg hc] at h
    split at h
    · cases h
    · refine .inr ⟨containsHash_eq_false.mp (by simpa using hc), by omega, ?_⟩
      exact (Except.ok.inj h).symm

lemma getByID_put_self (txObj : TxObject) : (m.put txObj).getByID txObj.id = some txObj :=
  AList.lookup_insert _

lemma removeByHash_of_lookup {txHash : Bytes32} {txObj : TxObject}
    (h : m.mapByHash.lookup txHash = some txObj) :
    m.removeByHash txHash =
      (⟨m.mapByHash.erase txHash, m.mapByID.erase txObj.id, decr m.quota txObj.origin⟩, true) := by
  simp [removeByHash, h]

lemma removeByHash_of_lookup_eq_none {txHash : Bytes32} (h : m.mapByHash.lookup txHash = none) :
    m.removeByHash txHash = (m, false) := by
  simp [removeByHash, h]

lemma containsHash_removeByHash (txHash h : Bytes32) :
    (m.removeByHash txHash).1.containsHash h = (m.containsHash h && h != txHash) := by
  by_cases hh : h = txHash
  · subst hh
    cases hl : m.mapByHash.lookup h with
    | none => simp [removeByHash_of_lookup_eq_none hl, containsHash, hl]
    | some txObj => simp [removeByHash_of_lookup hl, containsHash, AList.lookup_erase]
  · cases hl : m.mapByHash.lookup txHash with
    | none => simp [removeByHash_of_lookup_eq_none hl, hh]
    | some txObj => simp [removeByHash_of_lookup hl, containsHash, AList.lookup_erase_ne hh, hh]

end TxObjectMap

open TxObjectMap

/-- The operations of the pool on its map. A refused `Add` leaves the map as it was. -/
inductive Op
  | add (txObj : TxObject) (limitPerAccount : ℤ)
  | fill (txObjs : List TxObject)
  | removeByHash (txHash : Bytes32)

def Op.apply (m : TxObjectMap) : Op → TxObjectMap
  | .add txObj limitPerAccount =>
    match m.add txObj limitPerAccount with
    | .ok m' => m'
    | .error _ => m
  | .fill txObjs => m.fill txObjs
  | .removeByHash txHash => (m.removeByHash txHash).1

def run (m : TxObjectMap) (ops : List Op) : TxObjectMap := ops.foldl Op.apply m

/-- The objects an operation hands to the map. -/
def Op.txObjs : Op → List TxObject
  | .add txObj _ => [txObj]
  | .fill txObjs => txObjs
  | .removeByHash _ => []

/-! ## Invariants of runs -/

/-- What a property of the map has to survive for every run over objects of `S` to keep it:
putting an object of `S` not held yet, and removing by hash. -/
structure Preserves (S : Set TxObject) (P : TxObjectMap → Prop) : Prop where
  put : ∀ m x, P m → x ∈ S → m.mapByHash.lookup x.hash = none → P (m.put x)
  removeByHash : ∀ m txHash, P m → P (m.removeByHash txHash).1

namespace Preserves

variable {S : Set TxObject} {P : TxObjectMap → Prop} {m : TxObjectMap}

lemma add (hP : Preserves S P) (hm : P m) {txObj : TxObject} (hx : txObj ∈ S)
    {limitPerAccount : ℤ} {m' : TxObjectMap} (h : m.add txObj limitPerAccount = .ok m') : P m' := by
  rcases add_eq_ok h with ⟨-, rfl⟩ | ⟨hnone, -, rfl⟩
  · exact hm
  · exact hP.put m txObj hm hx hnone

lemma fill (hP : Preserves S P) (hm : P m) {txObjs : List TxObject} (hxs : ∀ x ∈ txObjs, x ∈ S) :
    P (m.fill txObjs) := by
  induction txObjs generalizing m with
  | nil => exact hm
  | cons txObj rest ih =>
    apply ih _ fun x hx => hxs x (List.mem_cons_of_mem _ hx)
    dsimp only
    by_cases hcont : m.containsHash txObj.hash = true
    · rw [if_pos hcont]
      exact hm
    · rw [if_neg hcont]
      exact hP.put m txObj hm (hxs txObj List.mem_cons_self)
        (containsHash_eq_false.mp (by simpa using hcont))

lemma apply (hP : Preserves S P) (hm : P m) {op : Op} (hop : ∀ x ∈ op.txObjs, x ∈ S) :
    P (op.apply m) := by
  cases op with
  | add txObj limitPerAccount =>
    cases h : m.add txObj limitPerAccount with
    | ok m' => simpa only [Op.apply, h] using hP.add hm (hop txObj List.mem_cons_self) h
    | error e => simpa only [Op.apply, h] using hm
  | fill txObjs => exact hP.fill hm hop
  | removeByHash txHash => exact hP.removeByHash m txHash hm

/-- The run rule: induction over the operations, one `apply` a step. -/
lemma run (hP : Preserves S P) (hm : P m) {ops : List Op}
    (hops : ∀ op ∈ ops, ∀ x ∈ op.txObjs, x ∈ S) : P (Txpool.run m ops) := by
  induction ops generalizing m with
  | nil => exact hm
  | cons op rest ih =>
    exact ih (hP.apply hm (hops op List.mem_cons_self)) fun op' h => hops op' (List.mem_cons_of_mem _ h)

end Preserves

/-- What every sequence of operations keeps. -/
structure Consistent (m : TxObjectMap) : Prop where
  hash_key : ∀ h x, m.mapByHash.lookup h = some x → x.hash = h
  id_key : ∀ i x, m.mapByID.lookup i = some x → x.id = i ∧ m.mapByHash.lookup x.hash = some x
  quota : Counts m.quota m.origins

lemma consistent_new : Consistent newTxObjectMap where
  hash_key h x := by simp [newTxObjectMap]
  id_key i x := by simp [newTxObjectMap]
  quota := by simpa [origins, newTxObjectMap] using counts_empty

namespace Consistent

variable {m : TxObjectMap}

lemma put (hc : Consistent m) {txObj : TxObject} (hnone : m.mapByHash.lookup txObj.hash = none) :
    Consistent (m.put txObj) where
  hash_key h x hx := by
    by_cases hh : h = txObj.hash
    · subst hh
      rw [TxObjectMap.put, AList.lookup_insert, Option.some_inj] at hx
      rw [← hx]
    · rw [TxObjectMap.put, AList.lookup_insert_ne hh] at hx
      exact hc.hash_key h x hx
  id_key i x hx := by
    by_cases hi : i = txObj.id
    · subst hi
      rw [TxObjectMap.put, AList.lookup_insert, Option.some_inj] at hx
      subst hx
      exact ⟨rfl, AList.lookup_insert _⟩
    · rw [TxObjectMap.put, AList.lookup_insert_ne hi] at hx
      obtain ⟨hid, hhash⟩ := hc.id_key i x hx
      -- an object held by hash is not the one the put adds
      have hne : x.hash ≠ txObj.hash := fun he => by rw [he, hnone] at hhash; cases hhash
      exact ⟨hid, by rw [TxObjectMap.put, AList.lookup_insert_ne hne, hhash]⟩
  quota := by
    rw [origins_put hnone]
    exact hc.quota.incr txObj.origin

lemma removeByHash (hc : Consistent m) (txHash : Bytes32) :
    Consistent (m.removeByHash txHash).1 := by
  cases hl : m.mapByHash.lookup txHash with
  | none => rwa [removeByHash_of_lookup_eq_none hl]
  | some txObj =>
    rw [removeByHash_of_lookup hl]
    refine ⟨fun h x hx => ?_, fun i x hx => ?_, ?_⟩
    · have hh : h ≠ txHash := by rintro rfl; simp at hx
      rw [AList.lookup_erase_ne hh] at hx
      exact hc.hash_key h x hx
    · have hi : i ≠ txObj.id := by rintro rfl; simp at hx
      rw [AList.lookup_erase_ne hi] at hx
      obtain ⟨hid, hhash⟩ := hc.id_key i x hx
      -- the object removed is the one under its own ID, so not this one
      have hne : x.hash ≠ txHash := fun he => by
        rw [he, hl, Option.some_inj] at hhash
        exact hi (hid ▸ hhash ▸ rfl)
      exact ⟨hid, by rw [AList.lookup_erase_ne hne, hhash]⟩
    · have hmem : txObj.origin ∈ m.origins :=
        Multiset.mem_map_of_mem _ (by rw [← cons_values_erase hl]; exact Multiset.mem_cons_self _ _)
      show Counts (decr m.quota txObj.origin)
        (Multiset.map TxObject.origin (values (m.mapByHash.erase txHash)))
      rw [origins_erase hl]
      exact hc.quota.decr hmem

lemma preserves : Preserves Set.univ Consistent where
  put _ _ hc _ hnone := hc.put hnone
  removeByHash _ txHash hc := hc.removeByHash txHash

lemma run (hc : Consistent m) (ops : List Op) : Consistent (Txpool.run m ops) :=
  preserves.run hc fun _ _ _ _ => Set.mem_univ _

end Consistent

/-- Every count the quota holds is within the account limit. -/
def QuotaWithin (limitPerAccount : ℤ) (m : TxObjectMap) : Prop :=
  ∀ o q, m.quota.lookup o = some q → (q : ℤ) ≤ limitPerAccount

lemma quotaWithin_new (limitPerAccount : ℤ) : QuotaWithin limitPerAccount newTxObjectMap := by
  intro o q ho
  simp [newTxObjectMap] at ho

lemma QuotaWithin.add {limitPerAccount : ℤ} {m m' : TxObjectMap} (hq : QuotaWithin limitPerAccount m)
    {txObj : TxObject} (h : m.add txObj limitPerAccount = .ok m') : QuotaWithin limitPerAccount m' := by
  rcases add_eq_ok h with ⟨-, rfl⟩ | ⟨-, hlt, rfl⟩
  · exact hq
  · intro o q ho
    by_cases hoe : o = txObj.origin
    · subst hoe
      rw [TxObjectMap.put, incr, AList.lookup_insert, Option.some_inj] at ho
      omega
    · rw [TxObjectMap.put, incr, AList.lookup_insert_ne hoe] at ho
      exact hq o q ho

lemma QuotaWithin.run_add {limitPerAccount : ℤ} {m : TxObjectMap}
    (hq : QuotaWithin limitPerAccount m) (txObjs : List TxObject) :
    QuotaWithin limitPerAccount (run m (txObjs.map fun txObj => .add txObj limitPerAccount)) := by
  induction txObjs generalizing m with
  | nil => exact hq
  | cons txObj rest ih =>
    apply ih
    cases h : m.add txObj limitPerAccount with
    | ok m' => simpa only [Op.apply, h] using hq.add h
    | error e => simpa only [Op.apply, h] using hq

/-! ## Transactions that share an ID -/

/-- Putting a second transaction of an ID moves the ID's entry onto it, and removing either
of the two then leaves the other held by hash and not found by ID. -/
theorem add_same_id_unreachable_by_id (m₀ m : TxObjectMap) (x y : TxObject) (limitPerAccount : ℤ)
    (hx : m₀.mapByHash.lookup x.hash = some x) (hy : m₀.mapByHash.lookup y.hash = none)
    (hid : y.id = x.id) (hadd : m₀.add y limitPerAccount = .ok m) :
    m.mapByHash.lookup x.hash = some x ∧ m.getByID x.id = some y ∧
      ((m.removeByHash y.hash).1.mapByHash.lookup x.hash = some x ∧
        (m.removeByHash y.hash).1.getByID x.id = none) ∧
      ((m.removeByHash x.hash).1.mapByHash.lookup y.hash = some y ∧
        (m.removeByHash x.hash).1.getByID y.id = none) := by
  have hne : x.hash ≠ y.hash := fun he => by rw [he, hy] at hx; cases hx
  obtain ⟨hy', -⟩ | ⟨-, -, rfl⟩ := add_eq_ok hadd
  · exact absurd hy hy'
  have hxm : (m₀.put y).mapByHash.lookup x.hash = some x := by
    rw [put, AList.lookup_insert_ne hne, hx]
  have hym : (m₀.put y).mapByHash.lookup y.hash = some y := AList.lookup_insert _
  refine ⟨hxm, hid ▸ getByID_put_self y, ⟨?_, ?_⟩, ?_, ?_⟩
  · rw [removeByHash_of_lookup hym]
    exact (AList.lookup_erase_ne hne).trans hxm
  · rw [removeByHash_of_lookup hym, getByID, hid]
    exact AList.lookup_erase _ _
  · rw [removeByHash_of_lookup hxm]
    exact (AList.lookup_erase_ne hne.symm).trans hym
  · rw [removeByHash_of_lookup hxm, getByID, hid]
    exact AList.lookup_erase _ _

theorem add_same_id_unreachable_by_id_two_delegators :
    ∃ x y : TxObject, ∃ m : TxObjectMap, y.id = x.id ∧ y.hash ≠ x.hash ∧
      (run newTxObjectMap [.add x 2]).add y 2 = .ok m ∧
      (m.removeByHash y.hash).1.mapByHash.lookup x.hash = some x ∧
      (m.removeByHash y.hash).1.getByID x.id = none := by
  let x : TxObject := ⟨Bytes32.zero, Bytes32.zero, Address.zero⟩
  let y : TxObject := ⟨BytesToBytes32 [1], Bytes32.zero, Address.zero⟩
  have h := add_same_id_unreachable_by_id (run newTxObjectMap [.add x 2])
    ((run newTxObjectMap [.add x 2]).put y) x y 2 (by decide) (by decide) rfl rfl
  exact ⟨x, y, _, rfl, by decide, rfl, h.2.2.1⟩

/-! ## Distinct IDs

With no two objects of one ID, `mapByID` and `mapByHash` hold the same objects. -/

/-- Every object held by hash is found by its ID. -/
def IdComplete (m : TxObjectMap) : Prop :=
  ∀ h x, m.mapByHash.lookup h = some x → m.getByID x.id = some x

/-- The map is consistent, holds objects of `S` only, and finds each of them by ID. -/
structure Indexed (S : Set TxObject) (m : TxObjectMap) : Prop where
  consistent : Consistent m
  held : ∀ h x, m.mapByHash.lookup h = some x → x ∈ S
  complete : IdComplete m

section DistinctIds

variable {S : Set TxObject} (hS : ∀ x ∈ S, ∀ y ∈ S, x.id = y.id → x = y)
include hS

lemma Indexed.put {m : TxObjectMap} (hi : Indexed S m) {txObj : TxObject} (hx : txObj ∈ S)
    (hnone : m.mapByHash.lookup txObj.hash = none) : Indexed S (m.put txObj) := by
  refine ⟨hi.consistent.put hnone, fun h y hy => ?_, fun h y hy => ?_⟩ <;>
    by_cases hh : h = txObj.hash
  · subst hh
    rw [TxObjectMap.put, AList.lookup_insert, Option.some_inj] at hy
    exact hy ▸ hx
  · rw [TxObjectMap.put, AList.lookup_insert_ne hh] at hy
    exact hi.held h y hy
  · subst hh
    rw [TxObjectMap.put, AList.lookup_insert, Option.some_inj] at hy
    exact hy ▸ getByID_put_self txObj
  · rw [TxObjectMap.put, AList.lookup_insert_ne hh] at hy
    by_cases hid : y.id = txObj.id
    -- the ID's entry moves to the object put, which is then this one
    · rw [hS y (hi.held h y hy) txObj hx hid]
      exact getByID_put_self txObj
    · rw [getByID, TxObjectMap.put, AList.lookup_insert_ne hid]
      exact hi.complete h y hy

lemma Indexed.removeByHash {m : TxObjectMap} (hi : Indexed S m) (txHash : Bytes32) :
    Indexed S (m.removeByHash txHash).1 := by
  cases hl : m.mapByHash.lookup txHash with
  | none => rwa [removeByHash_of_lookup_eq_none hl]
  | some z =>
    have hc' := hi.consistent.removeByHash txHash
    rw [removeByHash_of_lookup hl] at hc' ⊢
    refine ⟨hc', fun h y hy => ?_, fun h y hy => ?_⟩ <;>
      have hh : h ≠ txHash := by rintro rfl; simp at hy
    · rw [AList.lookup_erase_ne hh] at hy
      exact hi.held h y hy
    · rw [AList.lookup_erase_ne hh] at hy
      -- the object removed shares no ID with another held object
      have hid : y.id ≠ z.id := fun hid => by
        have hyz := hS y (hi.held h y hy) z (hi.held txHash z hl) hid
        have h1 := hi.consistent.hash_key h y hy
        have h2 := hi.consistent.hash_key txHash z hl
        exact hh (h1.symm.trans (hyz ▸ h2))
      rw [getByID, AList.lookup_erase_ne hid]
      exact hi.complete h y hy

lemma Indexed.preserves : Preserves S (Indexed S) where
  put _ _ hi hx hnone := hi.put hS hx hnone
  removeByHash _ txHash hi := hi.removeByHash hS txHash

end DistinctIds

lemma indexed_new (S : Set TxObject) : Indexed S newTxObjectMap where
  consistent := consistent_new
  held h x hx := by simp [newTxObjectMap] at hx
  complete h x hx := by simp [newTxObjectMap] at hx

lemma idComplete_run {ops : List Op}
    (hids : ∀ x ∈ ops.flatMap Op.txObjs, ∀ y ∈ ops.flatMap Op.txObjs, x.id = y.id → x = y) :
    IdComplete (run newTxObjectMap ops) :=
  ((Indexed.preserves hids).run (indexed_new _) fun op hop _ hx =>
    List.mem_flatMap.mpr ⟨op, hop, hx⟩).complete

end AuthorityBlock.Txpool
