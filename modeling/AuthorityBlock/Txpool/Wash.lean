import AuthorityBlock.Packer.Flow
import AuthorityBlock.Txpool.TxObjectMap
import AuthorityBlock.Lib.Slice
import Mathlib

/-! `TxPool.wash` (`txpool/tx_pool.go`) and `txObject.Executable` (`txpool/tx_object.go`): the
pool's housekeeping on a new head. Each object is judged on the head's state: washed out when
its origin is blocked, its lifetime is over, it can never be executed or its proved work cannot
be read; else counted as executable, with its overall gas price, or not yet executable. Locally
submitted objects are kept apart and never counted against the limit. Over the limit, the
non-executables go first, then the lowest priced executables. When the base gas price cannot be
read, the pool is cut to its limit from the front instead.

The results are about the pool after a whole wash: what it removes and what it keeps
(`wash_removes_exactly`), that the counted objects kept are as many as the limit allows
(`wash_keeps_limit`), that no executable is evicted before every non-executable
(`wash_evicts_nonExecutables_first`), that the executables evicted are priced at most as the
ones kept (`wash_evicts_lowest_priced`), that what it returns are the
executables it keeps (`wash_returns_kept_executables`), and the cut of the error path
(`wash_error_cuts_front`). -/

namespace AuthorityBlock.Txpool

open AuthorityBlock.Runtime State Chain Builtin Slice

/-- `txObject`: a transaction with its resolution, the time it was added and whether it was
submitted on this node. `hash` is its `Hash()`, the key of `TxObjectMap`, which is not
modelled. The flag `executable` is only written for the broadcast, and `overallGasPrice` goes
with the object in the lists that `wash` sorts. -/
structure PoolObject where
  hash : Bytes32
  resolved : ResolvedTransaction
  timeAdded : ℤ
  localSubmitted : Bool

/-- What `Executable` reads of the head block's header. -/
structure Head where
  Number : UInt32
  Timestamp : UInt64
  GasLimit : UInt64

namespace PoolObject

variable (o : PoolObject)

/-- The embedded `*tx.Transaction`, the one that was resolved. -/
def Transaction : Runtime.Transaction := o.resolved.tx

def Origin : Address := o.resolved.Origin

/-- What the pool's map files the object by. -/
def toTxObject : TxObject := ⟨o.hash, o.Transaction.ID, o.Origin⟩

/-- The dependency check of `Executable`: a result when it decides, `none` to go on. -/
def depStatus (chain : Chain) : Option (Except String Bool) :=
  match o.Transaction.DependsOn with
  | none => none
  | some dep =>
    match chain.getTransactionMeta dep with
    | .error err =>
      if Packer.IsNotFound err then some (.ok false) else some (.error (ChainError.Error err))
    | .ok txMeta => if txMeta.reverted then some (.error "dep reverted") else none

/-- `Executable`: whether the transaction can be packed on the head now, or an error for one
that never can. `BuyGas` runs on the state it is given, whose writes are dropped; its panic is
`none`. -/
def Executable (chain : Chain) (state : State) (headBlock : Head) : Option (Except String Bool) :=
  if o.Transaction.Gas > headBlock.GasLimit then some (.error "gas too large")
  else if o.Transaction.IsExpired headBlock.Number then some (.error "expired")
  else if o.Transaction.refNum > headBlock.Number + (5 * 60 / BlockInterval).toUInt32 then
    -- reject deferred tx which will be applied after 5mins
    some (.error "block ref out of schedule")
  else match chain.getTransactionMeta o.Transaction.ID with
  | .ok _ => some (.error "known tx")
  | .error err =>
    if !Packer.IsNotFound err then some (.error (ChainError.Error err))
    else match o.depStatus chain with
    | some result => some result
    | none =>
      if o.Transaction.refNum > headBlock.Number then some (.ok false)
      else match (o.resolved.BuyGas (headBlock.Timestamp + BlockInterval)).run.run state with
      | none => none
      | some (.error err, _) => some (.error err)
      | some (.ok _, _) => some (.ok true)

end PoolObject

/-- What `wash` reads of the pool's options, with whether an origin is blocked, by
`ablock.IsOriginBlocked` or by the pool's fetched blocklist. -/
structure Options where
  Limit : ℤ
  MaxLifetime : ℤ
  IsBlocked : Address → Bool

/-- What `wash` reads besides the pool: the options, the chain of the head block, a state of the
head (`newState()`, the same each time it is made), the head's header and the time. -/
structure Env where
  options : Options
  chain : Chain
  state : State
  head : Head
  now : ℤ

/-- `sortTxObjsByOverallGasPriceDesc`: `sort.Slice` with the test `gp1.Cmp(gp2) >= 0`, which
moves the objects, each with its price, into an order from high to low price. `sort.Slice` is
not stable and its test is not strict, so the order among equal prices is left open: a sorter
is any sort that keeps the objects and orders them so. -/
structure Sorter where
  sort : List (PoolObject × ℤ) → List (PoolObject × ℤ)
  perm : ∀ l, (sort l).Perm l
  sorted : ∀ l, (sort l).Pairwise fun a b => b.2 ≤ a.2

/-- Where one pass of the loop of `wash` puts an object; an executable one goes with its proved
work, from which the loop prices it. A local object that cannot be executed yet stays. -/
inductive Verdict
  | remove
  | executable (provedWork : ℤ)
  | localExecutable (provedWork : ℤ)
  | nonExecutable
  | stay
deriving DecidableEq

/-- The body of the loop of `wash` over one object. -/
def judge (env : Env) (o : PoolObject) : Option Verdict :=
  if env.options.IsBlocked o.Origin then some .remove
  -- out of lifetime
  else if !o.localSubmitted && env.now > o.timeAdded + env.options.MaxLifetime then some .remove
  else
    -- settled, out of energy or dep broken
    match o.Executable env.chain env.state env.head with
    | none => none
    | some (.error _) => some .remove
    | some (.ok true) =>
      match o.Transaction.ProvedWork env.head.Number env.chain.getBlockID with
      | .error _ => some .remove
      | .ok provedWork =>
        some (if o.localSubmitted then .localExecutable provedWork else .executable provedWork)
    | some (.ok false) => some (if !o.localSubmitted then .nonExecutable else .stay)

/-- The lists the loop of `wash` fills. -/
structure Sorting where
  toRemove : List PoolObject
  executableObjs : List (PoolObject × ℤ)
  nonExecutableObjs : List PoolObject
  localExecutableObjs : List (PoolObject × ℤ)

/-- An object appended to the list of its verdict, an executable one with its overall gas
price. -/
def Sorting.append (s : Sorting) (baseGasPrice : ℤ) (o : PoolObject) : Verdict → Sorting
  | .remove => { s with toRemove := s.toRemove ++ [o] }
  | .executable provedWork =>
    { s with executableObjs :=
        s.executableObjs ++ [(o, o.Transaction.OverallGasPrice baseGasPrice provedWork)] }
  | .localExecutable provedWork =>
    { s with localExecutableObjs :=
        s.localExecutableObjs ++ [(o, o.Transaction.OverallGasPrice baseGasPrice provedWork)] }
  | .nonExecutable => { s with nonExecutableObjs := s.nonExecutableObjs ++ [o] }
  | .stay => s

/-- The loop of `wash` over the pool's objects. -/
def sortOut (env : Env) (baseGasPrice : ℤ) (all : List PoolObject) : Option Sorting :=
  all.foldlM (fun s o => (judge env o).map (s.append baseGasPrice o)) ⟨[], [], [], []⟩

/-- The eviction of `wash` over the limit, on the executables sorted by price: every
non-executable and the executables past the limit when the executables alone exceed it, else the
non-executables past what the executables leave. It returns what to remove and the executables
kept; `none` is the panic of a negative limit's slice. -/
def evictOverLimit (limit : ℤ) (toRemove : List PoolObject)
    (executableObjs : List (PoolObject × ℤ)) (nonExecutableObjs : List PoolObject) :
    Option (List PoolObject × List (PoolObject × ℤ)) :=
  if (executableObjs.length : ℤ) > limit then do
    let evicted ← sliceFrom executableObjs limit
    let kept ← sliceTo executableObjs limit
    pure (toRemove ++ nonExecutableObjs ++ evicted.map (·.1), kept)
  else if (executableObjs.length + nonExecutableObjs.length : ℤ) > limit then do
    -- executableObjs + nonExecutableObjs over pool limit
    let evicted ← sliceFrom nonExecutableObjs (limit - executableObjs.length)
    pure (toRemove ++ evicted, executableObjs)
  else pure (toRemove, executableObjs)

/-- The loop of the deferred function of `wash` over the objects to remove. -/
def removeAll (pool : TxObjectMap) (toRemove : List PoolObject) : TxObjectMap :=
  toRemove.foldl (fun m txObj => (m.removeByHash txObj.hash).1) pool

/-- The loop of the deferred function of `wash` on an error: from the first object on, remove
while more than `limit` are left; with the count removed. -/
def cutToLimit (limit : ℤ) : TxObjectMap → List PoolObject → TxObjectMap × ℕ
  | pool, [] => (pool, 0)
  | pool, txObj :: rest =>
    if ((txObj :: rest).length : ℤ) ≤ limit then (pool, 0)
    else
      let (pool, removed) := cutToLimit limit (pool.removeByHash txObj.hash).1 rest
      (pool, removed + 1)

/-- `wash` on the pool's objects `all` (`ToTxObjects`) and its map: the executables, the map
after the deferred removals and the count removed, or the error of reading the base gas price. -/
def wash (env : Env) (sorter : Sorter) (all : List PoolObject) (pool : TxObjectMap) :
    Option (Except String (List Runtime.Transaction) × TxObjectMap × ℕ) :=
  match (Params.Get KeyBaseGasPrice).run.run env.state with
  | none => none
  | some (.error err, _) =>
    -- in case of error, simply cut pool size to limit
    let (pool, removed) := cutToLimit env.options.Limit pool all
    some (.error err, pool, removed)
  | some (.ok baseGasPrice, _) => do
    let s ← sortOut env baseGasPrice all
    -- sort objs by price from high to low, then remove over limit txs, from non-executables to
    -- low priced
    let (toRemove, executableObjs) ←
      evictOverLimit env.options.Limit s.toRemove (sorter.sort s.executableObjs)
        s.nonExecutableObjs
    let executableObjs := sorter.sort (executableObjs ++ s.localExecutableObjs)
    pure (.ok (executableObjs.map (·.1.Transaction)), removeAll pool toRemove, toRemove.length)

/-! ### The objects listed -/

/-- What `ToTxObjects` gives: objects the map holds, each once. -/
structure Listed (pool : TxObjectMap) (all : List PoolObject) : Prop where
  nodup : (all.map (·.hash)).Nodup
  held : ∀ o ∈ all, pool.containsHash o.hash = true

section Removal

variable {pool : TxObjectMap} {all : List PoolObject}

lemma Listed.eq_of_hash (hl : Listed pool all) {x y : PoolObject} (hx : x ∈ all) (hy : y ∈ all)
    (h : x.hash = y.hash) : x = y :=
  List.inj_on_of_nodup_map hl.nodup hx hy h

lemma Listed.nodup_objs (hl : Listed pool all) : all.Nodup := hl.nodup.of_map _

lemma removeAll_cons (pool : TxObjectMap) (o : PoolObject) (toRemove : List PoolObject) :
    removeAll pool (o :: toRemove) = removeAll (pool.removeByHash o.hash).1 toRemove := rfl

lemma containsHash_removeAll (pool : TxObjectMap) (toRemove : List PoolObject) (h : Bytes32) :
    (removeAll pool toRemove).containsHash h =
      (pool.containsHash h && !toRemove.any (·.hash == h)) := by
  induction toRemove generalizing pool with
  | nil => simp [removeAll]
  | cons o rest ih =>
    rw [removeAll_cons, ih, TxObjectMap.containsHash_removeByHash]
    by_cases ho : o.hash = h
    · simp [ho]
    · have hne : (h != o.hash) = true := bne_iff_ne.mpr (Ne.symm ho)
      have hbeq : (o.hash == h) = false := beq_eq_false_iff_ne.mpr ho
      simp [hne, hbeq]

lemma removeAll_drops_iff (hl : Listed pool all) {toRemove : List PoolObject}
    (hsub : ∀ r ∈ toRemove, r ∈ all) {o : PoolObject} (ho : o ∈ all) :
    (removeAll pool toRemove).containsHash o.hash = false ↔ o ∈ toRemove := by
  rw [containsHash_removeAll, hl.held o ho, Bool.true_and, Bool.not_eq_false',
    List.any_eq_true]
  simp only [beq_iff_eq]
  constructor
  · rintro ⟨r, hr, hh⟩
    exact hl.eq_of_hash (hsub r hr) ho hh ▸ hr
  · exact fun h => ⟨o, h, rfl⟩

lemma containsHash_removeAll_of_not_listed {toRemove : List PoolObject}
    (hsub : ∀ r ∈ toRemove, r ∈ all) {h : Bytes32} (hh : ∀ o ∈ all, o.hash ≠ h) :
    (removeAll pool toRemove).containsHash h = pool.containsHash h := by
  rw [containsHash_removeAll]
  have : toRemove.any (·.hash == h) = false := by
    simpa using fun r hr => hh r (hsub r hr)
  simp [this]

end Removal

/-! ### The loop -/

namespace Verdict

/-- The proved work of a non-local executable object. -/
def executableWork : Verdict → Option ℤ
  | .executable provedWork => some provedWork
  | _ => none

/-- The proved work of a local executable object. -/
def localWork : Verdict → Option ℤ
  | .localExecutable provedWork => some provedWork
  | _ => none

/-- Counted against the limit: neither local nor washed out. -/
def Counted : Verdict → Bool
  | .executable _ | .nonExecutable => true
  | _ => false

/-- Executable, local or not: what `wash` returns when it keeps it. -/
def IsExecutable : Verdict → Bool
  | .executable _ | .localExecutable _ => true
  | _ => false

@[simp] lemma executableWork_eq_some {v : Verdict} {w : ℤ} :
    v.executableWork = some w ↔ v = .executable w := by
  cases v <;> simp [executableWork]

@[simp] lemma localWork_eq_some {v : Verdict} {w : ℤ} :
    v.localWork = some w ↔ v = .localExecutable w := by
  cases v <;> simp [localWork]

end Verdict

/-- The objects of `all` whose verdict has a proved work under `work`, each with its overall gas
price: what the loop of `wash` gathers as executables. -/
def priced (env : Env) (baseGasPrice : ℤ) (work : Verdict → Option ℤ) (all : List PoolObject) :
    List (PoolObject × ℤ) :=
  all.filterMap fun o =>
    ((judge env o).bind work).map fun w => (o, o.Transaction.OverallGasPrice baseGasPrice w)

/-- The lists of `s` with the objects of `all` appended to the list of their verdict. -/
def Sorting.appendAll (s : Sorting) (env : Env) (baseGasPrice : ℤ) (all : List PoolObject) :
    Sorting :=
  ⟨s.toRemove ++ all.filter (judge env · = some .remove),
    s.executableObjs ++ priced env baseGasPrice Verdict.executableWork all,
    s.nonExecutableObjs ++ all.filter (judge env · = some .nonExecutable),
    s.localExecutableObjs ++ priced env baseGasPrice Verdict.localWork all⟩

section Loop

variable {env : Env} {baseGasPrice : ℤ} {all : List PoolObject}

lemma mem_priced {work : Verdict → Option ℤ} {o : PoolObject} {p : ℤ} :
    (o, p) ∈ priced env baseGasPrice work all ↔
      o ∈ all ∧ ∃ w, (judge env o).bind work = some w ∧
        o.Transaction.OverallGasPrice baseGasPrice w = p := by
  simp only [priced, List.mem_filterMap, Option.map_eq_some_iff, Prod.mk.injEq]
  constructor
  · rintro ⟨o', ho', w, hw, rfl, rfl⟩
    exact ⟨ho', w, hw, rfl⟩
  · rintro ⟨ho, w, hw, rfl⟩
    exact ⟨o, ho, w, hw, rfl, rfl⟩

lemma map_fst_priced (work : Verdict → Option ℤ) :
    (priced env baseGasPrice work all).map (·.1) =
      all.filter fun o => ((judge env o).bind work).isSome := by
  induction all with
  | nil => rfl
  | cons o rest ih =>
    simp only [priced, List.filterMap_cons, List.filter_cons] at ih ⊢
    cases hw : (judge env o).bind work <;>
      simp only [Option.map_none, Option.map_some, Option.isSome_none, Option.isSome_some,
        Bool.false_eq_true, ↓reduceIte, List.map_cons, ih]

lemma foldlM_append_eq_some {s₀ s : Sorting}
    (h : all.foldlM (fun s o => (judge env o).map (s.append baseGasPrice o)) s₀ = some s) :
    (∀ o ∈ all, (judge env o).isSome) ∧ s = s₀.appendAll env baseGasPrice all := by
  induction all generalizing s₀ with
  | nil =>
    cases h
    simp [Sorting.appendAll, priced]
  | cons o rest ih =>
    rw [List.foldlM_cons] at h
    cases hv : judge env o with
    | none => simp [hv] at h
    | some v =>
      have hrest : rest.foldlM (fun s o => (judge env o).map (s.append baseGasPrice o))
          (s₀.append baseGasPrice o v) = some s := by
        simpa [hv] using h
      obtain ⟨hj, rfl⟩ := ih hrest
      refine ⟨?_, ?_⟩
      · intro x hx
        rcases List.mem_cons.mp hx with rfl | hx
        · simp [hv]
        · exact hj x hx
      cases v <;>
        simp [Sorting.appendAll, Sorting.append, priced, hv,
          Verdict.executableWork, Verdict.localWork]

lemma sortOut_eq_some {s : Sorting} (h : sortOut env baseGasPrice all = some s) :
    (∀ o ∈ all, (judge env o).isSome) ∧
      s = ⟨all.filter (judge env · = some .remove),
        priced env baseGasPrice Verdict.executableWork all,
        all.filter (judge env · = some .nonExecutable),
        priced env baseGasPrice Verdict.localWork all⟩ := by
  obtain ⟨hj, rfl⟩ := foldlM_append_eq_some h
  exact ⟨hj, by simp [Sorting.appendAll]⟩

lemma judge_counted {o : PoolObject} {v : Verdict} (h : judge env o = some v) (hv : v.Counted) :
    o.localSubmitted = false := by
  cases hl : o.localSubmitted
  · rfl
  -- a local object is washed out, executable as a local one, or stays
  unfold judge at h
  simp only [hl, Bool.not_true, Bool.false_and, Bool.false_eq_true, ↓reduceIte] at h
  split_ifs at h
  · cases h
    simp [Verdict.Counted] at hv
  split at h <;> (try split at h) <;> cases h <;> simp [Verdict.Counted] at hv

lemma mem_map_fst_priced {work : Verdict → Option ℤ} {o : PoolObject} :
    o ∈ (priced env baseGasPrice work all).map (·.1) ↔
      o ∈ all ∧ ∃ w, ∃ v, judge env o = some v ∧ work v = some w := by
  rw [map_fst_priced, List.mem_filter, Option.isSome_iff_exists]
  simp only [Option.bind_eq_some_iff]

end Loop

/-! ### Eviction over the limit -/

lemma evictOverLimit_eq_some {limit : ℤ} {R N toRemove : List PoolObject}
    {E kept : List (PoolObject × ℤ)} (h : evictOverLimit limit R E N = some (toRemove, kept)) :
    0 ≤ limit ∧ ∃ evictedE keptN evictedN, E = kept ++ evictedE ∧ N = keptN ++ evictedN ∧
      toRemove = R ++ evictedN ++ evictedE.map (·.1) ∧
      kept.length + keptN.length = min (E.length + N.length) limit.toNat ∧
      (evictedE ≠ [] → keptN = []) := by
  unfold evictOverLimit at h
  split_ifs at h with hE hEN
  · -- the executables alone are over the limit: every non-executable goes
    obtain ⟨evicted, hev, h⟩ := Option.bind_eq_some_iff.mp h
    obtain ⟨k, hk, h⟩ := Option.bind_eq_some_iff.mp h
    obtain ⟨h0, -, rfl⟩ := sliceFrom_eq_some.mp hev
    obtain ⟨-, -, rfl⟩ := sliceTo_eq_some.mp hk
    cases h
    refine ⟨h0, E.drop limit.toNat, [], N, (List.take_append_drop _ _).symm, rfl, rfl, ?_,
      fun _ => rfl⟩
    simp only [List.length_take, List.length_nil]
    omega
  · obtain ⟨evicted, hev, h⟩ := Option.bind_eq_some_iff.mp h
    obtain ⟨-, -, rfl⟩ := sliceFrom_eq_some.mp hev
    cases h
    refine ⟨by omega, [], N.take (limit - E.length).toNat, N.drop (limit - E.length).toNat,
      by simp, (List.take_append_drop _ _).symm, by simp, ?_, fun h => absurd rfl h⟩
    simp only [List.length_take]
    omega
  · cases h
    refine ⟨by omega, [], N, [], by simp, by simp, by simp, ?_, fun h => absurd rfl h⟩
    omega

/-! ### A successful wash -/

/-- How a successful `wash` came about: the base gas price it read, every object judged, and the
sorted executables and the non-executables each split into the part kept and the part evicted,
as `evictOverLimit_eq_some` says. -/
structure Washed (env : Env) (sorter : Sorter) (all : List PoolObject) (pool : TxObjectMap)
    (executables : List Runtime.Transaction) (pool' : TxObjectMap) (removed : ℕ)
    (baseGasPrice : ℤ) (kept evictedE : List (PoolObject × ℤ)) (keptN evictedN : List PoolObject) :
    Prop where
  base : ∃ st, (Params.Get KeyBaseGasPrice).run.run env.state = some (.ok baseGasPrice, st)
  judged : ∀ o ∈ all, (judge env o).isSome
  limit_nonneg : 0 ≤ env.options.Limit
  executables_split :
    sorter.sort (priced env baseGasPrice Verdict.executableWork all) = kept ++ evictedE
  nonExecutables_split : all.filter (judge env · = some .nonExecutable) = keptN ++ evictedN
  kept_length : kept.length + keptN.length =
    min ((kept ++ evictedE).length + (keptN ++ evictedN).length) env.options.Limit.toNat
  nonExecutables_first : evictedE ≠ [] → keptN = []
  executables_eq : executables =
    (sorter.sort (kept ++ priced env baseGasPrice Verdict.localWork all)).map (·.1.Transaction)
  pool_eq : pool' =
    removeAll pool (all.filter (judge env · = some .remove) ++ evictedN ++ evictedE.map (·.1))
  removed_eq :
    removed = (all.filter (judge env · = some .remove) ++ evictedN ++ evictedE.map (·.1)).length

section Washed

variable {env : Env} {sorter : Sorter} {all : List PoolObject} {pool pool' : TxObjectMap}
  {executables : List Runtime.Transaction} {removed : ℕ}

lemma wash_eq_ok (h : wash env sorter all pool = some (.ok executables, pool', removed)) :
    ∃ baseGasPrice kept evictedE keptN evictedN,
      Washed env sorter all pool executables pool' removed baseGasPrice kept evictedE keptN
        evictedN := by
  unfold wash at h
  split at h
  · cases h
  · cases h
  · rename_i baseGasPrice st hbase
    obtain ⟨s, hs, h⟩ := Option.bind_eq_some_iff.mp h
    obtain ⟨⟨toRemove, kept⟩, he, h⟩ := Option.bind_eq_some_iff.mp h
    cases h
    obtain ⟨hj, rfl⟩ := sortOut_eq_some hs
    obtain ⟨h0, evictedE, keptN, evictedN, hE, hN, rfl, hlen, hfirst⟩ := evictOverLimit_eq_some he
    refine ⟨baseGasPrice, kept, evictedE, keptN, evictedN, ⟨st, hbase⟩, hj, h0, hE, hN, ?_, hfirst,
      rfl, rfl, rfl⟩
    rw [← hE, ← hN]
    exact hlen

variable {baseGasPrice : ℤ} {kept evictedE : List (PoolObject × ℤ)} {keptN evictedN : List PoolObject}
  (hw : Washed env sorter all pool executables pool' removed baseGasPrice kept evictedE keptN
    evictedN)
include hw

namespace Washed

lemma mem_executables_split {o : PoolObject} :
    o ∈ (kept ++ evictedE).map (·.1) ↔ o ∈ all ∧ ∃ w, judge env o = some (.executable w) := by
  rw [← hw.executables_split, ((sorter.perm _).map _).mem_iff, mem_map_fst_priced]
  simp only [Verdict.executableWork_eq_some]
  constructor
  · rintro ⟨ho, w, v, hv, rfl⟩
    exact ⟨ho, w, hv⟩
  · rintro ⟨ho, w, hv⟩
    exact ⟨ho, w, _, hv, rfl⟩

lemma mem_nonExecutables_split {o : PoolObject} :
    o ∈ keptN ++ evictedN ↔ o ∈ all ∧ judge env o = some .nonExecutable := by
  rw [← hw.nonExecutables_split, List.mem_filter, decide_eq_true_eq]

lemma executable_of_kept {o : PoolObject} (hk : o ∈ kept.map (·.1)) :
    o ∈ all ∧ ∃ w, judge env o = some (.executable w) :=
  hw.mem_executables_split.mp (by rw [List.map_append]; exact List.mem_append_left _ hk)

lemma executable_of_evicted {o : PoolObject} (he : o ∈ evictedE.map (·.1)) :
    o ∈ all ∧ ∃ w, judge env o = some (.executable w) :=
  hw.mem_executables_split.mp (by rw [List.map_append]; exact List.mem_append_right _ he)

lemma nonExecutable_of_kept {o : PoolObject} (hk : o ∈ keptN) :
    o ∈ all ∧ judge env o = some .nonExecutable :=
  hw.mem_nonExecutables_split.mp (List.mem_append_left _ hk)

lemma nonExecutable_of_evicted {o : PoolObject} (hn : o ∈ evictedN) :
    o ∈ all ∧ judge env o = some .nonExecutable :=
  hw.mem_nonExecutables_split.mp (List.mem_append_right _ hn)

lemma nodup_executables_split (hnd : all.Nodup) : ((kept ++ evictedE).map (·.1)).Nodup := by
  rw [← hw.executables_split, ((sorter.perm _).map _).nodup_iff, map_fst_priced]
  exact hnd.filter _

lemma nodup_nonExecutables_split (hnd : all.Nodup) : (keptN ++ evictedN).Nodup := by
  rw [← hw.nonExecutables_split]
  exact hnd.filter _

lemma price_of_mem_split {o : PoolObject} {p w : ℤ} (hp : (o, p) ∈ kept ++ evictedE)
    (hv : judge env o = some (.executable w)) :
    p = o.Transaction.OverallGasPrice baseGasPrice w := by
  rw [← hw.executables_split, (sorter.perm _).mem_iff, mem_priced] at hp
  obtain ⟨-, w', hw', rfl⟩ := hp
  simp only [hv, Option.bind_some, Verdict.executableWork] at hw'
  cases hw'
  rfl

lemma mem_toRemove {o : PoolObject} :
    o ∈ all.filter (judge env · = some .remove) ++ evictedN ++ evictedE.map (·.1) ↔
      o ∈ all ∧ (judge env o = some .remove ∨ o ∈ evictedN ∨ o ∈ evictedE.map (·.1)) := by
  simp only [List.mem_append, List.mem_filter, decide_eq_true_eq]
  constructor
  · rintro ((⟨ho, hr⟩ | hn) | he)
    · exact ⟨ho, .inl hr⟩
    · exact ⟨(hw.nonExecutable_of_evicted hn).1, .inr (.inl hn)⟩
    · exact ⟨(hw.executable_of_evicted he).1, .inr (.inr he)⟩
  · rintro ⟨ho, hr | hn | he⟩
    · exact .inl (.inl ⟨ho, hr⟩)
    · exact .inl (.inr hn)
    · exact .inr he

lemma nodup_toRemove (hnd : all.Nodup) :
    (all.filter (judge env · = some .remove) ++ evictedN ++ evictedE.map (·.1)).Nodup := by
  have hN := (List.nodup_append.mp (hw.nodup_nonExecutables_split hnd)).2.1
  have hE := (List.nodup_append.mp (by simpa using hw.nodup_executables_split hnd)).2.1
  refine List.nodup_append.mpr ⟨List.nodup_append.mpr ⟨hnd.filter _, hN, ?_⟩, hE, ?_⟩
  · -- washed out against a non-executable
    rintro a ha b hb rfl
    rw [List.mem_filter, decide_eq_true_eq, (hw.nonExecutable_of_evicted hb).2] at ha
    cases ha.2
  · -- washed out or a non-executable, against an executable
    rintro a ha b hb rfl
    obtain ⟨-, w, hv⟩ := hw.executable_of_evicted hb
    rcases List.mem_append.mp ha with hr | hn
    · rw [List.mem_filter, decide_eq_true_eq, hv] at hr
      cases hr.2
    · rw [(hw.nonExecutable_of_evicted hn).2] at hv
      cases hv

lemma drops_iff (hl : Listed pool all) {o : PoolObject} (ho : o ∈ all) :
    pool'.containsHash o.hash = false ↔
      judge env o = some .remove ∨ o ∈ evictedN ∨ o ∈ evictedE.map (·.1) := by
  rw [hw.pool_eq, removeAll_drops_iff hl (fun r hr => (hw.mem_toRemove.mp hr).1) ho,
    hw.mem_toRemove, and_iff_right ho]

lemma kept_iff (hl : Listed pool all) {o : PoolObject} (ho : o ∈ all) :
    o ∈ kept.map (·.1) ↔
      (∃ w, judge env o = some (.executable w)) ∧ pool'.containsHash o.hash = true := by
  have hnd := (List.nodup_append.mp (by simpa using hw.nodup_executables_split hl.nodup_objs)).2.2
  constructor
  · intro hk
    obtain ⟨-, w, hv⟩ := hw.executable_of_kept hk
    refine ⟨⟨w, hv⟩, ?_⟩
    by_contra hd
    rcases (hw.drops_iff hl ho).mp (by simpa using hd) with hr | hn | he
    · rw [hv] at hr
      cases hr
    · rw [(hw.nonExecutable_of_evicted hn).2] at hv
      cases hv
    · exact hnd o hk o he rfl
  · rintro ⟨⟨w, hv⟩, hheld⟩
    have hsplit := hw.mem_executables_split.mpr ⟨ho, w, hv⟩
    rw [List.map_append, List.mem_append] at hsplit
    refine hsplit.resolve_right fun he => ?_
    have := (hw.drops_iff hl ho).mpr (.inr (.inr he))
    simp [hheld] at this

lemma keptN_iff (hl : Listed pool all) {o : PoolObject} (ho : o ∈ all) :
    o ∈ keptN ↔ judge env o = some .nonExecutable ∧ pool'.containsHash o.hash = true := by
  have hnd := (List.nodup_append.mp (hw.nodup_nonExecutables_split hl.nodup_objs)).2.2
  constructor
  · intro hk
    have hv := (hw.nonExecutable_of_kept hk).2
    refine ⟨hv, ?_⟩
    by_contra hd
    rcases (hw.drops_iff hl ho).mp (by simpa using hd) with hr | hn | he
    · rw [hv] at hr
      cases hr
    · exact hnd o hk o hn rfl
    · obtain ⟨-, w, hw'⟩ := hw.executable_of_evicted he
      rw [hv] at hw'
      cases hw'
  · rintro ⟨hv, hheld⟩
    rcases List.mem_append.mp (hw.mem_nonExecutables_split.mpr ⟨ho, hv⟩) with hk | hn
    · exact hk
    · have := (hw.drops_iff hl ho).mpr (.inr (.inl hn))
      simp [hheld] at this

lemma held_of_not_counted (hl : Listed pool all) {o : PoolObject} (ho : o ∈ all) {v : Verdict}
    (hv : judge env o = some v) (hr : v ≠ .remove) (hc : v.Counted = false) :
    pool'.containsHash o.hash = true := by
  by_contra hd
  rcases (hw.drops_iff hl ho).mp (by simpa using hd) with hr' | hn | he
  · rw [hv] at hr'
    exact hr (Option.some.inj hr')
  · have hn' := (hw.nonExecutable_of_evicted hn).2
    rw [hv] at hn'
    cases hn'
    cases hc
  · obtain ⟨-, w, hw'⟩ := hw.executable_of_evicted he
    rw [hv] at hw'
    cases hw'
    cases hc

lemma held_of_local (hl : Listed pool all) {o : PoolObject} (ho : o ∈ all)
    (hloc : o.localSubmitted = true) (hr : judge env o ≠ some .remove) :
    pool'.containsHash o.hash = true := by
  obtain ⟨v, hv⟩ := Option.isSome_iff_exists.mp (hw.judged o ho)
  refine hw.held_of_not_counted hl ho hv (fun h => hr (h ▸ hv)) ?_
  by_contra hc
  have := judge_counted hv (by simpa using hc)
  simp [hloc] at this

end Washed

end Washed

lemma any_counted_iff {x : Option Verdict} :
    x.any Verdict.Counted = true ↔ (∃ w, x = some (.executable w)) ∨ x = some .nonExecutable := by
  rcases x with _ | v
  · simp
  · cases v <;> simp [Verdict.Counted]

lemma any_isExecutable_iff {x : Option Verdict} :
    x.any Verdict.IsExecutable = true ↔
      (∃ w, x = some (.executable w)) ∨ ∃ w, x = some (.localExecutable w) := by
  rcases x with _ | v
  · simp
  · cases v <;> simp [Verdict.IsExecutable]

lemma cutToLimit_eq (limit : ℤ) (pool : TxObjectMap) (all : List PoolObject) :
    cutToLimit limit pool all =
      (removeAll pool (all.take (all.length - limit.toNat)), all.length - limit.toNat) := by
  induction all generalizing pool with
  | nil => simp [cutToLimit, removeAll]
  | cons o rest ih =>
    rw [cutToLimit]
    split_ifs with hle
    · -- no more than `limit` left: nothing goes
      have : (o :: rest).length - limit.toNat = 0 := by
        simp only [List.length_cons] at hle ⊢
        omega
      rw [this]
      rfl
    · have : (o :: rest).length - limit.toNat = rest.length - limit.toNat + 1 := by
        simp only [List.length_cons] at hle ⊢
        omega
      rw [ih, this, List.take_succ_cons, removeAll_cons]

/-! ### A wash of three objects over a limit of one -/

/-- A transaction without clauses referring to block `ref` (its number in the high 32 bits),
paid by its origin at the price coefficient `coef`. -/
def pooledTx (id : Bytes32) (ref : UInt64) (coef : UInt8) : Runtime.Transaction where
  ChainTag := 0
  BlockRef := ref
  Expiration := 720
  Clauses := []
  GasPriceCoef := coef
  Gas := 21000
  DependsOn := none
  Reserved := ⟨0, []⟩
  Origin := .ok Address.zero
  Delegator := .ok none
  ID := id
  UnprovedWork := 0

/-- A remote object of `pooledTx`, hashed as its ID. -/
def pooledObj (id : Bytes32) (ref : UInt64) (coef : UInt8) : PoolObject :=
  ⟨id, ⟨pooledTx id ref coef, Address.zero, none, 21000, []⟩, 0, false⟩

/-- The ID whose last byte is `b`, all others zero. -/
def pooledID (b : UInt8) : Bytes32 := ⟨List.replicate 31 0 ++ [b], by simp⟩

/-- Executable now, at the base gas price. -/
def cheapObj : PoolObject := pooledObj (pooledID 1) 0 0

/-- Executable now, at twice the base gas price. -/
def dearObj : PoolObject := pooledObj (pooledID 2) 0 255

/-- Refers to block 1, above the head: not executable yet. -/
def laterObj : PoolObject := pooledObj (pooledID 3) (2 ^ 32) 128

def threeObjs : List PoolObject := [cheapObj, dearObj, laterObj]

def threePool : TxObjectMap :=
  ((newTxObjectMap.put cheapObj.toTxObject).put dearObj.toTxObject).put laterObj.toTxObject

/-- The head at block 0 of an empty chain, on a given state, with a pool limit of one. -/
def limitOneEnv (state : State) : Env :=
  ⟨⟨1, 1200, fun _ => false⟩, ⟨Repository.empty, Bytes32.zero⟩, state, ⟨0, 0, 10000000⟩, 0⟩

/-- A state whose base gas price is 1000, the integer `0x03E8` stored under its key of
`Params`, and whose accounts hold energy for any of the transactions. -/
def pricedState : State :=
  State.new ⟨fun _ => ⟨0, 10 ^ 18, 0, [], [], []⟩, fun _ => [], fun addr key =>
    if addr = Consensus.paramsAddress ∧ key = KeyBaseGasPrice then [0x82, 0x03, 0xE8] else []⟩

/-- A state whose stored values are all the non-canonical integer `0x00`. -/
def badParamsState : State := State.new ⟨fun _ => emptyAccount, fun _ => [], fun _ _ => [0]⟩

def priceGe (a b : PoolObject × ℤ) : Prop := b.2 ≤ a.2

instance : DecidableRel priceGe := fun a b => Int.decLe b.2 a.2

instance : Std.Total priceGe := ⟨fun a b => le_total b.2 a.2⟩

instance : IsTrans (PoolObject × ℤ) priceGe := ⟨fun _ _ _ hab hbc => le_trans hbc hab⟩

/-- Insertion sort by price, from high to low. -/
def byPriceDesc : Sorter :=
  ⟨List.insertionSort priceGe, List.perm_insertionSort priceGe, List.pairwise_insertionSort priceGe⟩

lemma listed_threeObjs : Listed threePool threeObjs := ⟨by decide, by decide⟩

lemma wash_limitOne : ∃ executables pool',
    wash (limitOneEnv pricedState) byPriceDesc threeObjs threePool =
        some (.ok executables, pool', 2) ∧
      pool'.containsHash cheapObj.hash = false ∧ pool'.containsHash dearObj.hash = true ∧
      pool'.containsHash laterObj.hash = false := by
  have hrun : (wash (limitOneEnv pricedState) byPriceDesc threeObjs threePool).map (fun r =>
      (r.1.toBool, r.2.1.containsHash cheapObj.hash, r.2.1.containsHash dearObj.hash,
        r.2.1.containsHash laterObj.hash, r.2.2)) =
      some (true, false, true, false, 2) := by
    decide +kernel
  obtain ⟨⟨x, pool', removed⟩, h, hp⟩ := Option.map_eq_some_iff.mp hrun
  simp only [Prod.mk.injEq] at hp
  obtain ⟨hx, h₁, h₂, h₃, rfl⟩ := hp
  cases x with
  | error err => cases hx
  | ok executables => exact ⟨executables, pool', h, h₁, h₂, h₃⟩

section Results

variable {env : Env} {sorter : Sorter} {all : List PoolObject} {pool pool' : TxObjectMap}
  {executables : List Runtime.Transaction} {removed : ℕ}

/-- After a successful wash every object washed out has left the pool, every local object that
passed the checks is still in it, no entry of an object not listed is touched, and the count
returned is the number of objects gone. -/
theorem wash_removes_exactly (hl : Listed pool all)
    (h : wash env sorter all pool = some (.ok executables, pool', removed)) :
    (∀ o ∈ all, judge env o = some .remove → pool'.containsHash o.hash = false) ∧
      (∀ o ∈ all, o.localSubmitted = true → judge env o ≠ some .remove →
        pool'.containsHash o.hash = true) ∧
      (∀ txHash, (∀ o ∈ all, o.hash ≠ txHash) →
        pool'.containsHash txHash = pool.containsHash txHash) ∧
      removed = (all.filter fun o => !pool'.containsHash o.hash).length := by
  obtain ⟨baseGasPrice, kept, evictedE, keptN, evictedN, hw⟩ := wash_eq_ok h
  refine ⟨fun o ho hv => (hw.drops_iff hl ho).mpr (.inl hv), fun o ho => hw.held_of_local hl ho,
    fun txHash hh => ?_, ?_⟩
  · rw [hw.pool_eq]
    exact containsHash_removeAll_of_not_listed (fun r hr => (hw.mem_toRemove.mp hr).1) hh
  · -- the objects removed are the listed objects gone, each once
    have hperm : (all.filter (judge env · = some .remove) ++ evictedN ++ evictedE.map (·.1)).Perm
        (all.filter fun o => !pool'.containsHash o.hash) := by
      refine (List.perm_ext_iff_of_nodup (hw.nodup_toRemove hl.nodup_objs)
        (hl.nodup_objs.filter _)).mpr fun o => ?_
      rw [hw.mem_toRemove, List.mem_filter, Bool.not_eq_true']
      exact ⟨fun ⟨ho, hr⟩ => ⟨ho, (hw.drops_iff hl ho).mpr hr⟩,
        fun ⟨ho, hd⟩ => ⟨ho, (hw.drops_iff hl ho).mp hd⟩⟩
    rw [hw.removed_eq, hperm.length_eq]

/-- The wash over a limit of one removes two objects and reports two. -/
theorem wash_removes_exactly_limitOne : ∃ executables pool',
    wash (limitOneEnv pricedState) byPriceDesc threeObjs threePool =
        some (.ok executables, pool', 2) ∧
      2 = (threeObjs.filter fun o => !pool'.containsHash o.hash).length := by
  obtain ⟨executables, pool', h, -⟩ := wash_limitOne
  exact ⟨executables, pool', h, (wash_removes_exactly listed_threeObjs h).2.2.2⟩

/-- Of the objects counted against the limit, as many stay as the limit allows; a negative limit
never gets this far. -/
theorem wash_keeps_limit (hl : Listed pool all)
    (h : wash env sorter all pool = some (.ok executables, pool', removed)) :
    0 ≤ env.options.Limit ∧
      (all.filter fun o => (judge env o).any Verdict.Counted && pool'.containsHash o.hash).length =
        min (all.countP fun o => (judge env o).any Verdict.Counted) env.options.Limit.toNat := by
  obtain ⟨baseGasPrice, kept, evictedE, keptN, evictedN, hw⟩ := wash_eq_ok h
  have hnd := hl.nodup_objs
  -- the executables and the non-executables are apart
  have hsplit : ((kept ++ evictedE).map (·.1) ++ (keptN ++ evictedN)).Nodup := by
    refine List.nodup_append.mpr
      ⟨hw.nodup_executables_split hnd, hw.nodup_nonExecutables_split hnd, ?_⟩
    rintro a ha b hb rfl
    obtain ⟨-, w, hv⟩ := hw.mem_executables_split.mp ha
    rw [(hw.mem_nonExecutables_split.mp hb).2] at hv
    cases hv
  have hcounted : ((kept ++ evictedE).map (·.1) ++ (keptN ++ evictedN)).Perm
      (all.filter fun o => (judge env o).any Verdict.Counted) := by
    refine (List.perm_ext_iff_of_nodup hsplit (hnd.filter _)).mpr fun o => ?_
    rw [List.mem_append, hw.mem_executables_split, hw.mem_nonExecutables_split, List.mem_filter,
      any_counted_iff]
    tauto
  have hkept : (kept.map (·.1) ++ keptN).Perm
      (all.filter fun o => (judge env o).any Verdict.Counted && pool'.containsHash o.hash) := by
    have hsub : (kept.map (·.1) ++ keptN).Sublist
        ((kept ++ evictedE).map (·.1) ++ (keptN ++ evictedN)) := by
      rw [List.map_append]
      exact (List.sublist_append_left _ _).append (List.sublist_append_left _ _)
    refine (List.perm_ext_iff_of_nodup (hsplit.sublist hsub) (hnd.filter _)).mpr fun o => ?_
    rw [List.mem_filter, Bool.and_eq_true, any_counted_iff, List.mem_append]
    constructor
    · rintro (hk | hk)
      · obtain ⟨ho, hex⟩ := hw.executable_of_kept hk
        exact ⟨ho, .inl hex, ((hw.kept_iff hl ho).mp hk).2⟩
      · obtain ⟨ho, hn⟩ := hw.nonExecutable_of_kept hk
        exact ⟨ho, .inr hn, ((hw.keptN_iff hl ho).mp hk).2⟩
    · rintro ⟨ho, hex | hn, hheld⟩
      · exact .inl ((hw.kept_iff hl ho).mpr ⟨hex, hheld⟩)
      · exact .inr ((hw.keptN_iff hl ho).mpr ⟨hn, hheld⟩)
  refine ⟨hw.limit_nonneg, ?_⟩
  rw [← hkept.length_eq, List.countP_eq_length_filter, ← hcounted.length_eq]
  simpa [Nat.add_assoc] using hw.kept_length

/-- Of the two counted objects, one stays under a limit of one. -/
theorem wash_keeps_limit_one : ∃ executables pool',
    wash (limitOneEnv pricedState) byPriceDesc threeObjs threePool =
        some (.ok executables, pool', 2) ∧
      (threeObjs.filter fun o =>
        (judge (limitOneEnv pricedState) o).any Verdict.Counted && pool'.containsHash o.hash).length =
        min (threeObjs.countP fun o => (judge (limitOneEnv pricedState) o).any Verdict.Counted) 1 := by
  obtain ⟨executables, pool', h, -⟩ := wash_limitOne
  exact ⟨executables, pool', h, (wash_keeps_limit listed_threeObjs h).2⟩

/-- No executable is evicted while a non-executable stays. -/
theorem wash_evicts_nonExecutables_first (hl : Listed pool all)
    (h : wash env sorter all pool = some (.ok executables, pool', removed)) :
    (∃ o ∈ all, (∃ w, judge env o = some (.executable w)) ∧ pool'.containsHash o.hash = false) →
      ∀ o ∈ all, judge env o = some .nonExecutable → pool'.containsHash o.hash = false := by
  obtain ⟨baseGasPrice, kept, evictedE, keptN, evictedN, hw⟩ := wash_eq_ok h
  rintro ⟨e, he, hex, hd⟩ o ho hn
  -- the executable gone lies past the kept prefix, so no non-executable is kept
  have hev : evictedE ≠ [] := by
    rintro rfl
    have hk := (hw.mem_executables_split.mpr ⟨he, hex⟩)
    simp only [List.append_nil] at hk
    rw [((hw.kept_iff hl he).mp hk).2] at hd
    cases hd
  have hkN := hw.nonExecutables_first hev
  by_contra hheld
  have := (hw.keptN_iff hl ho).mpr ⟨hn, by simpa using hheld⟩
  rw [hkN] at this
  cases this

/-- The cheap executable is evicted, so the later object, not executable yet, is evicted
too. -/
theorem wash_evicts_nonExecutables_first_limitOne : ∃ executables pool',
    wash (limitOneEnv pricedState) byPriceDesc threeObjs threePool =
        some (.ok executables, pool', 2) ∧
      judge (limitOneEnv pricedState) cheapObj = some (.executable 0) ∧
      pool'.containsHash cheapObj.hash = false ∧
      judge (limitOneEnv pricedState) laterObj = some .nonExecutable ∧
      pool'.containsHash laterObj.hash = false := by
  obtain ⟨executables, pool', h, hcheap, -, -⟩ := wash_limitOne
  have hvc : judge (limitOneEnv pricedState) cheapObj = some (.executable 0) := by decide +kernel
  have hvl : judge (limitOneEnv pricedState) laterObj = some .nonExecutable := by decide +kernel
  exact ⟨executables, pool', h, hvc, hcheap, hvl,
    wash_evicts_nonExecutables_first listed_threeObjs h
      ⟨cheapObj, by simp [threeObjs], ⟨0, hvc⟩, hcheap⟩ laterObj (by simp [threeObjs]) hvl⟩

/-- Every executable evicted is priced at most as every executable kept, the sort ordering them
by price from high to low. -/
theorem wash_evicts_lowest_priced (hl : Listed pool all) {baseGasPrice : ℤ} {st : State}
    (hbase : (Params.Get KeyBaseGasPrice).run.run env.state = some (.ok baseGasPrice, st))
    (h : wash env sorter all pool = some (.ok executables, pool', removed)) :
    ∀ o₁ ∈ all, ∀ o₂ ∈ all, ∀ w₁ w₂, judge env o₁ = some (.executable w₁) →
      judge env o₂ = some (.executable w₂) → pool'.containsHash o₁.hash = false →
      pool'.containsHash o₂.hash = true →
      o₁.Transaction.OverallGasPrice baseGasPrice w₁ ≤
        o₂.Transaction.OverallGasPrice baseGasPrice w₂ := by
  obtain ⟨b, kept, evictedE, keptN, evictedN, hw⟩ := wash_eq_ok h
  -- the run priced the executables at the base gas price read
  obtain ⟨st', hb⟩ := hw.base
  rw [hbase] at hb
  cases hb
  intro o₁ ho₁ o₂ ho₂ w₁ w₂ hv₁ hv₂ hd₁ hk₂
  -- the first lies in the evicted part of the sorted executables, the second in the kept part
  have he₁ : o₁ ∈ evictedE.map (·.1) := by
    have hsplit := hw.mem_executables_split.mpr ⟨ho₁, w₁, hv₁⟩
    rw [List.map_append, List.mem_append] at hsplit
    refine hsplit.resolve_left fun hk => ?_
    rw [((hw.kept_iff hl ho₁).mp hk).2] at hd₁
    cases hd₁
  have hk₂' : o₂ ∈ kept.map (·.1) := (hw.kept_iff hl ho₂).mpr ⟨⟨w₂, hv₂⟩, hk₂⟩
  obtain ⟨⟨o₁', p₁⟩, hp₁, ho₁'⟩ := List.mem_map.mp he₁
  obtain ⟨⟨o₂', p₂⟩, hp₂, ho₂'⟩ := List.mem_map.mp hk₂'
  dsimp only at ho₁' ho₂'
  subst ho₁' ho₂'
  have hs := sorter.sorted (priced env baseGasPrice Verdict.executableWork all)
  rw [hw.executables_split, List.pairwise_append] at hs
  rw [← hw.price_of_mem_split (List.mem_append_right _ hp₁) hv₁,
    ← hw.price_of_mem_split (List.mem_append_left _ hp₂) hv₂]
  exact hs.2.2 _ hp₂ _ hp₁

/-- At a base gas price of 1000, the cheap executable evicted is priced 1000 and the dear one
kept 2000. -/
theorem wash_evicts_lowest_priced_limitOne : ∃ executables pool',
    wash (limitOneEnv pricedState) byPriceDesc threeObjs threePool =
        some (.ok executables, pool', 2) ∧
      cheapObj.Transaction.OverallGasPrice 1000 0 = 1000 ∧
      dearObj.Transaction.OverallGasPrice 1000 0 = 2000 ∧
      ∀ o₁ ∈ threeObjs, ∀ o₂ ∈ threeObjs, ∀ w₁ w₂,
        judge (limitOneEnv pricedState) o₁ = some (.executable w₁) →
        judge (limitOneEnv pricedState) o₂ = some (.executable w₂) →
        pool'.containsHash o₁.hash = false → pool'.containsHash o₂.hash = true →
        o₁.Transaction.OverallGasPrice 1000 w₁ ≤ o₂.Transaction.OverallGasPrice 1000 w₂ := by
  obtain ⟨executables, pool', h, -⟩ := wash_limitOne
  have hread : ((Params.Get KeyBaseGasPrice).run.run pricedState).map (·.1.toOption) =
      some (some 1000) := by
    decide +kernel
  obtain ⟨⟨x, st⟩, hbase, hx⟩ := Option.map_eq_some_iff.mp hread
  cases x with
  | error err => cases hx
  | ok baseGasPrice =>
    cases hx
    exact ⟨executables, pool', h, by decide, by decide,
      wash_evicts_lowest_priced listed_threeObjs hbase h⟩

/-- What a successful wash returns are the transactions of the executables it keeps, local or
not, each once. -/
theorem wash_returns_kept_executables (hl : Listed pool all)
    (h : wash env sorter all pool = some (.ok executables, pool', removed)) :
    executables.Perm ((all.filter fun o =>
      (judge env o).any Verdict.IsExecutable && pool'.containsHash o.hash).map (·.Transaction)) := by
  obtain ⟨baseGasPrice, kept, evictedE, keptN, evictedN, hw⟩ := wash_eq_ok h
  have hnd := hl.nodup_objs
  -- the executables kept and the local ones are apart
  have hsplit :
      (kept.map (·.1) ++ (priced env baseGasPrice Verdict.localWork all).map (·.1)).Nodup := by
    refine List.nodup_append.mpr ⟨?_, by rw [map_fst_priced]; exact hnd.filter _, ?_⟩
    · have := hw.nodup_executables_split hnd
      rw [List.map_append] at this
      exact (List.nodup_append.mp this).1
    · rintro a ha b hb rfl
      obtain ⟨-, w, hv⟩ := hw.executable_of_kept ha
      obtain ⟨-, w', v, hv', hw'⟩ := mem_map_fst_priced.mp hb
      rw [hv] at hv'
      cases hv'
      cases hw'
  have hperm : (kept.map (·.1) ++ (priced env baseGasPrice Verdict.localWork all).map (·.1)).Perm
      (all.filter fun o => (judge env o).any Verdict.IsExecutable && pool'.containsHash o.hash) := by
    refine (List.perm_ext_iff_of_nodup hsplit (hnd.filter _)).mpr fun o => ?_
    rw [List.mem_append, mem_map_fst_priced, List.mem_filter, Bool.and_eq_true,
      any_isExecutable_iff]
    simp only [Verdict.localWork_eq_some]
    constructor
    · rintro (hk | ⟨ho, w, _, hv, rfl⟩)
      · obtain ⟨ho, hex⟩ := hw.executable_of_kept hk
        exact ⟨ho, .inl hex, ((hw.kept_iff hl ho).mp hk).2⟩
      · exact ⟨ho, .inr ⟨w, hv⟩, hw.held_of_not_counted hl ho hv (by simp) rfl⟩
    · rintro ⟨ho, hex | ⟨w, hv⟩, hheld⟩
      · exact .inl ((hw.kept_iff hl ho).mpr ⟨hex, hheld⟩)
      · exact .inr ⟨ho, w, _, hv, rfl⟩
  rw [hw.executables_eq]
  refine ((sorter.perm _).map _).trans ?_
  have := hperm.map PoolObject.Transaction
  simpa [List.map_map, Function.comp_def] using this

theorem wash_returns_kept_executables_limitOne : ∃ executables pool',
    wash (limitOneEnv pricedState) byPriceDesc threeObjs threePool =
        some (.ok executables, pool', 2) ∧
      executables.Perm ((threeObjs.filter fun o =>
        (judge (limitOneEnv pricedState) o).any Verdict.IsExecutable &&
          pool'.containsHash o.hash).map (·.Transaction)) := by
  obtain ⟨executables, pool', h, -⟩ := wash_limitOne
  exact ⟨executables, pool', h, wash_returns_kept_executables listed_threeObjs h⟩

/-- When the base gas price cannot be read, the pool is cut to its limit from the front: the
count returned is how many objects were over it, and those that stay are the last ones
listed. -/
theorem wash_error_cuts_front (hl : Listed pool all) {err : String}
    (h : wash env sorter all pool = some (.error err, pool', removed)) :
    removed = all.length - env.options.Limit.toNat ∧
      all.filter (fun o => pool'.containsHash o.hash) = all.drop removed := by
  unfold wash at h
  split at h
  · cases h
  · rw [cutToLimit_eq] at h
    cases h
    refine ⟨rfl, ?_⟩
    set n := all.length - env.options.Limit.toNat
    have hgone : ∀ o ∈ all, (removeAll pool (all.take n)).containsHash o.hash = false ↔
        o ∈ all.take n :=
      fun o ho => removeAll_drops_iff hl (fun r hr => List.mem_of_mem_take hr) ho
    have hdisj := List.nodup_append.mp ((List.take_append_drop n all).symm ▸ hl.nodup_objs)
    calc all.filter (fun o => (removeAll pool (all.take n)).containsHash o.hash)
        = (all.take n ++ all.drop n).filter
            (fun o => (removeAll pool (all.take n)).containsHash o.hash) := by
          rw [List.take_append_drop]
      _ = [] ++ all.drop n := by
          rw [List.filter_append]
          congr 1
          · refine List.filter_eq_nil_iff.mpr fun o ho => ?_
            simp [(hgone o (List.mem_of_mem_take ho)).mpr ho]
          · refine List.filter_eq_self.mpr fun o ho => ?_
            have hout : o ∉ all.take n := fun ht => hdisj.2.2 o ht o ho rfl
            simpa using mt (hgone o (List.mem_of_mem_drop ho)).mp hout
      _ = all.drop n := List.nil_append _
  · obtain ⟨s, -, h⟩ := Option.bind_eq_some_iff.mp h
    obtain ⟨⟨toRemove, kept⟩, -, h⟩ := Option.bind_eq_some_iff.mp h
    cases h

/-- On a state whose base gas price does not decode, the first two of three objects go and the
last stays, whatever their prices. -/
theorem wash_error_cuts_front_limitOne : ∃ err pool',
    wash (limitOneEnv badParamsState) byPriceDesc threeObjs threePool =
        some (.error err, pool', 2) ∧
      2 = threeObjs.length - (1 : ℤ).toNat ∧
      threeObjs.filter (fun o => pool'.containsHash o.hash) = threeObjs.drop 2 := by
  have hrun : (wash (limitOneEnv badParamsState) byPriceDesc threeObjs threePool).map
      (fun r => (r.1.toBool, r.2.2)) = some (false, 2) := by
    decide +kernel
  obtain ⟨⟨x, pool', removed⟩, h, hp⟩ := Option.map_eq_some_iff.mp hrun
  simp only [Prod.mk.injEq] at hp
  obtain ⟨hx, rfl⟩ := hp
  cases x with
  | ok executables => cases hx
  | error err =>
    obtain ⟨hremoved, hfilter⟩ := wash_error_cuts_front listed_threeObjs h
    exact ⟨err, pool', h, hremoved, hremoved ▸ hfilter⟩

end Results

end AuthorityBlock.Txpool
