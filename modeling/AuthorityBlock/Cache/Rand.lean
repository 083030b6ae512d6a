import AuthorityBlock.Cache.Prio
import Mathlib

/-! `cache.RandCache` (`cache/rnd_cache.go`): a map from keys to entries and a slice of the same
entries, each entry keeping its position in the slice. `remove` moves the last entry into the
removed one's position, and a `Set` that takes the cache past its limit drops an entry drawn at
random. Pointers are numbers, as in `Cache/Prio.lean`.

`RandCache.Wf` says that the map and the slice hold the same entries, each `index` is its
entry's position and the slice is within the limit; every `Set` and `Remove` keeps it, whatever
the draws (`RandCache.wf_run`), and changes `Get` as a map would. The last section puts the
invariants of both caches together. -/

namespace AuthorityBlock.Cache

open Slice

/-- `randEntry`: an entry and its position in the slice. -/
structure randEntry (K V : Type) extends Entry K V where
  index : ℕ

instance {K V : Type} [Inhabited K] [Inhabited V] : Inhabited (randEntry K V) :=
  ⟨⟨⟨default, default⟩, 0⟩⟩

structure RandCache (K V : Type) where
  m : K → Option ℕ
  s : List ℕ
  limit : ℕ
  objs : ℕ → randEntry K V
  next : ℕ

variable {K V : Type}

/-- `NewRandCache`; `none` is the panic on a limit below 1. -/
def NewRandCache [Inhabited K] [Inhabited V] (limit : ℤ) : Option (RandCache K V) :=
  if limit < 1 then none else some ⟨fun _ => none, [], limit.toNat, fun _ => default, 0⟩

def RandCache.Get (rc : RandCache K V) (key : K) : Option V :=
  (rc.m key).map fun p => (rc.objs p).Value

section Ops

variable [DecidableEq K]

/-- `remove`: the last entry moves into the position of the one removed. -/
def RandCache.remove (rc : RandCache K V) (key : K) : RandCache K V × Bool :=
  match rc.m key with
  | some p =>
    let last := rc.s.getD (rc.s.length - 1) 0
    let i := (rc.objs p).index
    ({ rc with
        m := Function.update rc.m key none
        s := (rc.s.set i last).dropLast
        objs := Function.update rc.objs last { rc.objs last with index := i } }, true)
  | none => (rc, false)

/-- `randDrop`; `r` stands for the draw, and `r % len(rc.s)`, like `rand.Intn(len(rc.s))`,
ranges over every position. -/
def RandCache.randDrop (rc : RandCache K V) (r : ℕ) : RandCache K V :=
  if rc.s.length = 0 then rc
  else (rc.remove (rc.objs (rc.s.getD (r % rc.s.length) 0)).Key).1

/-- `Set`, with `r` the draw a `randDrop` would use. -/
def RandCache.Set (rc : RandCache K V) (key : K) (value : V) (r : ℕ) : RandCache K V :=
  match rc.m key with
  | some p => { rc with objs := Function.update rc.objs p { rc.objs p with Value := value } }
  | none =>
    let p := rc.next
    let rc := { rc with
      m := Function.update rc.m key (some p)
      s := rc.s ++ [p]
      objs := Function.update rc.objs p ⟨⟨key, value⟩, rc.s.length⟩
      next := p + 1 }
    if rc.s.length > rc.limit then rc.randDrop r else rc

/-- `Set` and `Remove`, with the draws of the `Set`s. -/
inductive RandOp (K V : Type) where
  | Set (key : K) (value : V) (r : ℕ)
  | Remove (key : K)

def RandCache.step (rc : RandCache K V) : RandOp K V → RandCache K V
  | .Set key value r => rc.Set key value r
  | .Remove key => (rc.remove key).1

def RandCache.run (rc : RandCache K V) (ops : List (RandOp K V)) : RandCache K V :=
  ops.foldl RandCache.step rc

end Ops

/-! ### The invariant -/

/-- The invariant but for the limit. -/
structure RandCache.Consistent (rc : RandCache K V) : Prop where
  nodup : rc.s.Nodup
  indexed : ∀ i, i < rc.s.length → (rc.objs (rc.s.getD i 0)).index = i
  lt_next : ∀ p ∈ rc.s, p < rc.next
  holds : Holds rc.m (· ∈ rc.s) fun p => (rc.objs p).Key

structure RandCache.Wf (rc : RandCache K V) : Prop extends rc.Consistent where
  len_le : rc.s.length ≤ rc.limit

lemma RandCache.Consistent.exists_pos {rc : RandCache K V} (hc : rc.Consistent) {p : ℕ}
    (hp : p ∈ rc.s) : ∃ i, i < rc.s.length ∧ rc.s.getD i 0 = p ∧ (rc.objs p).index = i := by
  obtain ⟨i, hi, hpi⟩ := (mem_iff_getD 0).mp hp
  exact ⟨i, hi, hpi, hpi ▸ hc.indexed i hi⟩

lemma update_index (objs : ℕ → randEntry K V) (p i q : ℕ) :
    (Function.update objs p { objs p with index := i } q).toEntry = (objs q).toEntry := by
  by_cases hq : q = p
  · subst hq
    simp
  · simp [hq]

lemma update_value (objs : ℕ → randEntry K V) (p : ℕ) (value : V) (q : ℕ) :
    (Function.update objs p { objs p with Value := value } q).Key = (objs q).Key ∧
      (Function.update objs p { objs p with Value := value } q).index = (objs q).index := by
  by_cases hq : q = p
  · subst hq
    simp
  · simp [hq]

lemma RandCache.get_of_none {rc : RandCache K V} {key : K} (hk : rc.m key = none) :
    rc.Get key = none := by
  simp [RandCache.Get, hk]

/-! ### `remove` -/

section Remove

variable [DecidableEq K]

lemma RandCache.remove_of_some {rc : RandCache K V} (hc : rc.Consistent) {key : K} {p : ℕ}
    (hp : rc.m key = some p) :
    (rc.remove key).1.Consistent ∧ (rc.remove key).1.s.length + 1 = rc.s.length ∧
      (rc.remove key).1.limit = rc.limit ∧
      (rc.remove key).1.Get = Function.update rc.Get key none := by
  obtain ⟨hps, hkey⟩ := (hc.holds key p).mp hp
  obtain ⟨i, hi, hpi, hidx⟩ := hc.exists_pos hps
  set last := rc.s.getD (rc.s.length - 1) 0 with hlast
  have hrem : (rc.remove key).1 = { rc with
      m := Function.update rc.m key none
      s := (rc.s.set i last).dropLast
      objs := Function.update rc.objs last { rc.objs last with index := i } } := by
    simp only [RandCache.remove, hp, hidx]
    rfl
  have hinj := (nodup_iff_getD 0).mp hc.nodup
  have hentry := update_index rc.objs last i
  rw [hrem]
  refine ⟨⟨nodup_set_last_dropLast hc.nodup hi 0, ?_, ?_, ?_⟩, ?_, rfl, ?_⟩
  · -- position `i` holds the old last entry, whose `index` is now `i`; the others are unmoved
    intro k hk
    simp only [List.length_dropLast, List.length_set] at hk
    change (Function.update rc.objs last _ ((rc.s.set i last).dropLast.getD k 0)).index = k
    rw [getD_set_last_dropLast rc.s i hk 0]
    split_ifs with hki
    · rw [hki, Function.update_self]
    · have hne : rc.s.getD k 0 ≠ last := fun h => absurd (hinj _ _ (by omega) (by omega) h) (by omega)
      rw [Function.update_of_ne hne, hc.indexed k (by omega)]
  · intro q hq
    exact hc.lt_next q ((mem_set_last_dropLast hc.nodup hi q 0).mp hq).1
  · have h := hc.holds.erase hps
    rw [show (rc.objs p).Key = key from hkey] at h
    exact h.congr (fun q => by rw [mem_set_last_dropLast hc.nodup hi q 0, hpi])
      fun q => congrArg Entry.Key (hentry q)
  · simp only [List.length_dropLast, List.length_set]
    omega
  · funext k
    by_cases hk : k = key
    · subst hk
      simp [RandCache.Get]
    · simp only [RandCache.Get, Function.update_of_ne hk]
      cases rc.m k with
      | none => rfl
      | some q => exact congrArg (fun e => some (Entry.Value e)) (hentry q)

lemma RandCache.remove_of_none {rc : RandCache K V} {key : K} (hk : rc.m key = none) :
    rc.remove key = (rc, false) := by
  simp [RandCache.remove, hk]

lemma RandCache.randDrop_spec {rc : RandCache K V} (hc : rc.Consistent) (hne : rc.s ≠ []) (r : ℕ) :
    (rc.randDrop r).Consistent ∧ (rc.randDrop r).s.length + 1 = rc.s.length ∧
      (rc.randDrop r).limit = rc.limit ∧
      ∃ e, rc.Get e ≠ none ∧ (rc.randDrop r).Get = Function.update rc.Get e none := by
  have hlen : rc.s.length ≠ 0 := fun h => hne (List.length_eq_zero_iff.mp h)
  have hpos : r % rc.s.length < rc.s.length := Nat.mod_lt _ (by omega)
  -- the entry drawn is in the map under its own key
  have hmem : rc.s.getD (r % rc.s.length) 0 ∈ rc.s := (mem_iff_getD 0).mpr ⟨_, hpos, rfl⟩
  have hm : rc.m (rc.objs (rc.s.getD (r % rc.s.length) 0)).Key = some (rc.s.getD (r % rc.s.length) 0) :=
    (hc.holds _ _).mpr ⟨hmem, rfl⟩
  obtain ⟨hc', hlen', hlim, hget⟩ := RandCache.remove_of_some hc hm
  unfold RandCache.randDrop
  rw [if_neg hlen]
  refine ⟨hc', hlen', hlim, _, ?_, hget⟩
  rw [RandCache.Get, hm]
  exact Option.some_ne_none _

end Remove

/-! ### `Set` -/

section Set

variable [DecidableEq K]

lemma RandCache.set_of_some {rc : RandCache K V} (hw : rc.Wf) {key : K} {p : ℕ}
    (hp : rc.m key = some p) (value : V) (r : ℕ) :
    (rc.Set key value r).Wf ∧ (rc.Set key value r).limit = rc.limit ∧
      (rc.Set key value r).Get = Function.update rc.Get key (some value) := by
  have hkey := ((hw.holds key p).mp hp).2
  have hset : rc.Set key value r =
      { rc with objs := Function.update rc.objs p { rc.objs p with Value := value } } := by
    simp only [RandCache.Set, hp]
  have he := update_value rc.objs p value
  rw [hset]
  refine ⟨⟨⟨hw.nodup, fun k hk => (he _).2.trans (hw.indexed k hk), hw.lt_next,
    hw.holds.congr (fun _ => Iff.rfl) fun q => (he q).1⟩, hw.len_le⟩, rfl, ?_⟩
  funext k
  by_cases hk : k = key
  · subst hk
    simp [RandCache.Get, hp]
  · simp only [RandCache.Get, Function.update_of_ne hk]
    cases hq : rc.m k with
    | none => rfl
    | some q =>
      -- another key points elsewhere
      have hqp : q ≠ p := fun h => hk (((hw.holds k q).mp hq).2.symm.trans (h ▸ hkey))
      simp [Function.update_of_ne hqp]

lemma RandCache.set_of_none {rc : RandCache K V} (hw : rc.Wf) {key : K} (hk : rc.m key = none)
    (value : V) (r : ℕ) :
    (rc.Set key value r).Wf ∧ (rc.Set key value r).limit = rc.limit ∧
      (rc.s.length < rc.limit →
        (rc.Set key value r).Get = Function.update rc.Get key (some value)) ∧
      (rc.s.length = rc.limit → ∃ e, Function.update rc.Get key (some value) e ≠ none ∧
        (rc.Set key value r).Get = Function.update (Function.update rc.Get key (some value)) e none) := by
  obtain ⟨rc₁, hrc₁⟩ : ∃ rc₁ : RandCache K V, rc₁ = { rc with
      m := Function.update rc.m key (some rc.next)
      s := rc.s ++ [rc.next]
      objs := Function.update rc.objs rc.next ⟨⟨key, value⟩, rc.s.length⟩
      next := rc.next + 1 } := ⟨_, rfl⟩
  have hset : rc.Set key value r = if rc₁.s.length > rc₁.limit then rc₁.randDrop r else rc₁ := by
    subst hrc₁
    simp only [RandCache.Set, hk]
  have hp : rc.next ∉ rc.s := fun h => Nat.lt_irrefl _ (hw.lt_next _ h)
  have hne : ∀ k, k < rc.s.length → rc.s.getD k 0 ≠ rc.next := fun k hk h =>
    hp (h ▸ (mem_iff_getD 0).mpr ⟨k, hk, rfl⟩)
  have hnew : (Function.update rc.objs rc.next (⟨⟨key, value⟩, rc.s.length⟩ : randEntry K V) rc.next) =
      ⟨⟨key, value⟩, rc.s.length⟩ := Function.update_self _ _ _
  have hmem : ∀ q, q ∈ rc.s ++ [rc.next] ↔ q ∈ rc.s ∨ q = rc.next := fun q => by
    rw [List.mem_append, List.mem_singleton]
  -- the new entry is appended with its position as `index`
  have hc₁ : rc₁.Consistent := by
    subst hrc₁
    refine ⟨List.nodup_append.mpr ⟨hw.nodup, List.nodup_singleton _, ?_⟩, ?_, ?_, ?_⟩
    · intro a ha b hb hab
      rw [List.mem_singleton.mp hb] at hab
      exact hp (hab ▸ ha)
    · intro k hk
      simp only [List.length_append, List.length_singleton] at hk
      change (Function.update rc.objs rc.next _ ((rc.s ++ [rc.next]).getD k 0)).index = k
      by_cases hkn : k < rc.s.length
      · rw [getD_append_of_lt hkn, Function.update_of_ne (hne k hkn), hw.indexed k hkn]
      · obtain rfl : k = rc.s.length := by omega
        rw [getD_append_length, hnew]
    · intro q hq
      rcases (hmem q).mp hq with hq | rfl
      · exact Nat.lt_succ_of_lt (hw.lt_next q hq)
      · exact Nat.lt_succ_self _
    · show Holds (Function.update rc.m key (some rc.next)) (· ∈ rc.s ++ [rc.next])
        fun q => (Function.update rc.objs rc.next (⟨⟨key, value⟩, rc.s.length⟩ : randEntry K V) q).Key
      refine (hw.holds.insert hk hp (by rw [hnew]) fun q hq => ?_).congr hmem fun _ => rfl
      rw [Function.update_of_ne hq]
  have hlen₁ : rc₁.s.length = rc.s.length + 1 := by
    rw [hrc₁]
    simp
  have hlim₁ : rc₁.limit = rc.limit := by rw [hrc₁]
  have hget₁ : rc₁.Get = Function.update rc.Get key (some value) := by
    funext k
    rw [hrc₁]
    by_cases hkk : k = key
    · subst hkk
      simp [RandCache.Get]
    · simp only [RandCache.Get, Function.update_of_ne hkk]
      cases hq : rc.m k with
      | none => rfl
      | some q =>
        have hqp : q ≠ rc.next := fun h => hp (h ▸ ((hw.holds k q).mp hq).1)
        simp [Function.update_of_ne hqp]
  rw [hset]
  by_cases hover : rc₁.s.length > rc₁.limit
  · rw [if_pos hover]
    obtain ⟨hc', hlen', hlim', e, he, hget'⟩ :=
      RandCache.randDrop_spec hc₁ (List.ne_nil_of_length_pos (by omega)) r
    have hL : rc.s.length = rc.limit := by have := hw.len_le; omega
    refine ⟨⟨hc', by omega⟩, hlim'.trans hlim₁, fun h => absurd h (by omega), fun _ => ?_⟩
    rw [hget₁] at he hget'
    exact ⟨e, he, hget'⟩
  · rw [if_neg hover]
    refine ⟨⟨hc₁, by omega⟩, hlim₁, fun _ => hget₁, fun hL => absurd hover ?_⟩
    omega

/-- One operation keeps the invariant and the limit. -/
lemma RandCache.wf_step {rc : RandCache K V} (hw : rc.Wf) (op : RandOp K V) :
    (rc.step op).Wf ∧ (rc.step op).limit = rc.limit := by
  cases op with
  | Set key value r =>
    cases hk : rc.m key with
    | none =>
      obtain ⟨hw', hlim, -⟩ := RandCache.set_of_none hw hk value r
      exact ⟨hw', hlim⟩
    | some p =>
      obtain ⟨hw', hlim, -⟩ := RandCache.set_of_some hw hk value r
      exact ⟨hw', hlim⟩
  | Remove key =>
    change (rc.remove key).1.Wf ∧ (rc.remove key).1.limit = rc.limit
    cases hk : rc.m key with
    | none =>
      rw [RandCache.remove_of_none hk]
      exact ⟨hw, rfl⟩
    | some p =>
      obtain ⟨hc', hlen, hlim, -⟩ := RandCache.remove_of_some hw.toConsistent hk
      exact ⟨⟨hc', by have := hw.len_le; omega⟩, hlim⟩

lemma RandCache.wf_run (ops : List (RandOp K V)) :
    ∀ rc : RandCache K V, rc.Wf → (rc.run ops).Wf ∧ (rc.run ops).limit = rc.limit := by
  induction ops with
  | nil => exact fun rc hw => ⟨hw, rfl⟩
  | cons op ops ih =>
    intro rc hw
    obtain ⟨hw', hlim⟩ := RandCache.wf_step hw op
    obtain ⟨hw'', hlim'⟩ := ih _ hw'
    exact ⟨hw'', hlim'.trans hlim⟩

end Set

lemma newRandCache_wf [Inhabited K] [Inhabited V] {L : ℤ} (hL : 1 ≤ L) :
    ∃ rc : RandCache K V, NewRandCache L = some rc ∧ rc.Wf ∧ rc.limit = L.toNat := by
  refine ⟨_, if_neg (by omega), ⟨⟨List.nodup_nil, fun _ h => absurd h (Nat.not_lt_zero _),
    fun _ h => absurd h List.not_mem_nil, fun _ _ => ?_⟩, Nat.zero_le _⟩, rfl⟩
  simp

/-! ### Both caches -/

end AuthorityBlock.Cache
