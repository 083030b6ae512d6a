import AuthorityBlock.Lib.Heap
import AuthorityBlock.Lib.Slice
import AuthorityBlock.Cache.Entry
import Mathlib

/-! `cache.PrioCache` (`cache/prio_cache.go`): a map from keys to entries and a heap of the same
entries by priority, each entry keeping its own position in the heap. Go's entries are pointers
shared by the map and the slice; here a pointer is a number, `objs` holds the entry each one
points to, and `next` is the next one to allocate.

The heap is Go's `container/heap` (`Lib/Heap.lean`) over `prioEntries`, whose swap also
rewrites the two entries' `index` fields. A swap changes nothing else (`Frame`), so every heap
operation keeps the map, the entries' keys, values and priorities and the set of pointers in
the slice, and keeps each `index` equal to its entry's position. With priorities from a linear
order, `PrioCache.Wf` holds after every `Set`, `Remove` and `Get` from `NewPrioCache`. -/

namespace AuthorityBlock.Cache

open Heap Slice

structure PrioEntry (K V P : Type) extends Entry K V where
  Priority : P

/-- `prioEntry`: an entry and its position in the heap, `-1` once popped. -/
structure prioEntry (K V P : Type) extends PrioEntry K V P where
  index : ℤ

instance {K V P : Type} [Inhabited K] [Inhabited V] [Inhabited P] : Inhabited (prioEntry K V P) :=
  ⟨⟨⟨⟨default, default⟩, default⟩, 0⟩⟩

structure PrioCache (K V P : Type) where
  m : K → Option ℕ
  s : List ℕ
  limit : ℕ
  objs : ℕ → prioEntry K V P
  next : ℕ

variable {K V P : Type}

/-- `NewPrioCache`; `none` is the panic on a limit below 1. -/
def NewPrioCache [Inhabited K] [Inhabited V] [Inhabited P] (limit : ℤ) : Option (PrioCache K V P) :=
  if limit < 1 then none else some ⟨fun _ => none, [], limit.toNat, fun _ => default, 0⟩

/-- `ent.index = index` for the entry at `p`. -/
def setIndex (objs : ℕ → prioEntry K V P) (p : ℕ) (index : ℤ) : ℕ → prioEntry K V P :=
  Function.update objs p { objs p with index := index }

section Ops

variable [DecidableEq K] [LT P] [DecidableLT P]

/-- `prioEntries` as a `heap.Interface`: `Less` compares priorities; `Swap` sets the two
entries' `index` fields and exchanges them. -/
def prioEntries : Interface (PrioCache K V P) where
  Len pc := pc.s.length
  Less pc i j := decide ((pc.objs (pc.s.getD i 0)).Priority < (pc.objs (pc.s.getD j 0)).Priority)
  Swap pc i j :=
    { pc with
      objs := setIndex (setIndex pc.objs (pc.s.getD i 0) j) (pc.s.getD j 0) i
      s := listSwap pc.s i j }

/-- `prioEntries.Push`. -/
def prioEntries.push (p : ℕ) (pc : PrioCache K V P) : PrioCache K V P :=
  { pc with objs := setIndex pc.objs p pc.s.length, s := pc.s ++ [p] }

/-- `prioEntries.Pop`: the last entry, its `index` set to `-1`. -/
def prioEntries.pop (pc : PrioCache K V P) : PrioCache K V P × ℕ :=
  ({ pc with objs := setIndex pc.objs (pc.s.getD (pc.s.length - 1) 0) (-1), s := pc.s.dropLast },
    pc.s.getD (pc.s.length - 1) 0)

def PrioCache.popLowest (pc : PrioCache K V P) : PrioCache K V P :=
  if pc.s.length = 0 then pc
  else
    let r := Heap.Pop prioEntries prioEntries.pop pc
    { r.1 with m := Function.update r.1.m (r.1.objs r.2).Key none }

def PrioCache.Set (pc : PrioCache K V P) (key : K) (value : V) (priority : P) : PrioCache K V P :=
  match pc.m key with
  | some p =>
    let pc := { pc with
      objs := Function.update pc.objs p { pc.objs p with Value := value, Priority := priority } }
    Heap.Fix prioEntries pc (pc.objs p).index.toNat
  | none =>
    let p := pc.next
    let pc := { pc with objs := Function.update pc.objs p ⟨⟨⟨key, value⟩, priority⟩, 0⟩, next := p + 1 }
    let pc := Heap.Push prioEntries (prioEntries.push p) pc
    let pc := { pc with m := Function.update pc.m key (some p) }
    if pc.s.length > pc.limit then pc.popLowest else pc

/-- `Get`: the value and priority, `none` for Go's `nil, 0, false`. -/
def PrioCache.Get (pc : PrioCache K V P) (key : K) : Option (V × P) :=
  (pc.m key).map fun p => ((pc.objs p).Value, (pc.objs p).Priority)

/-- `Remove`, with the removed entry. -/
def PrioCache.Remove (pc : PrioCache K V P) (key : K) : PrioCache K V P × Option (PrioEntry K V P) :=
  match pc.m key with
  | some p =>
    let pc := { pc with m := Function.update pc.m key none }
    let r := Heap.Remove prioEntries prioEntries.pop pc (pc.objs p).index.toNat
    (r.1, some (r.1.objs p).toPrioEntry)
  | none => (pc, none)

/-- The cache's operations; `Get` only reads. -/
inductive PrioOp (K V P : Type) where
  | Set (key : K) (value : V) (priority : P)
  | Remove (key : K)
  | Get (key : K)

def PrioCache.step (pc : PrioCache K V P) : PrioOp K V P → PrioCache K V P
  | .Set key value priority => pc.Set key value priority
  | .Remove key => (pc.Remove key).1
  | .Get _ => pc

def PrioCache.run (pc : PrioCache K V P) (ops : List (PrioOp K V P)) : PrioCache K V P :=
  ops.foldl PrioCache.step pc

end Ops

/-- The source's priorities, `float64`, on the values this development needs: integers, and
`NaN`, which `<` leaves unordered with everything, itself included. -/
inductive Float64 where
  | NaN
  | ofInt (z : ℤ)
deriving DecidableEq, Inhabited

def Float64.lt : Float64 → Float64 → Bool
  | .ofInt x, .ofInt y => decide (x < y)
  | _, _ => false

instance : LT Float64 := ⟨fun a b => a.lt b = true⟩

instance : DecidableLT Float64 := fun a b => inferInstanceAs (Decidable (a.lt b = true))

/-! ### What a swap keeps -/

/-- The priority at a position of the heap. -/
def prio (pc : PrioCache K V P) (k : ℕ) : P := (pc.objs (pc.s.getD k 0)).Priority

/-- The pointer at a position of the heap. -/
def ptr (pc : PrioCache K V P) (k : ℕ) : ℕ := pc.s.getD k 0

@[simp] lemma toPrioEntry_setIndex (objs : ℕ → prioEntry K V P) (p : ℕ) (index : ℤ) (q : ℕ) :
    (setIndex objs p index q).toPrioEntry = (objs q).toPrioEntry := by
  unfold setIndex
  by_cases hq : q = p
  · subst hq; simp
  · simp [hq]

lemma index_setIndex_self (objs : ℕ → prioEntry K V P) (p : ℕ) (index : ℤ) :
    (setIndex objs p index p).index = index := by
  simp [setIndex]

lemma setIndex_of_ne (objs : ℕ → prioEntry K V P) {p q : ℕ} (index : ℤ) (hq : q ≠ p) :
    setIndex objs p index q = objs q := by
  simp [setIndex, hq]

lemma update_entry (objs : ℕ → prioEntry K V P) (p : ℕ) (value : V) (priority : P) (q : ℕ) :
    (Function.update objs p { objs p with Value := value, Priority := priority } q).Key = (objs q).Key ∧
      (Function.update objs p { objs p with Value := value, Priority := priority } q).index =
        (objs q).index := by
  by_cases hq : q = p
  · subst hq
    simp
  · simp [hq]

/-- What the heap operations keep of a state `pc₀`: everything but the order of the slice and
the `index` fields, which stay the positions. -/
structure Frame (pc₀ pc : PrioCache K V P) : Prop where
  m : pc.m = pc₀.m
  limit : pc.limit = pc₀.limit
  next : pc.next = pc₀.next
  entry : ∀ p, (pc.objs p).toPrioEntry = (pc₀.objs p).toPrioEntry
  mem : ∀ p, p ∈ pc.s ↔ p ∈ pc₀.s
  nodup : pc.s.Nodup
  indexed : ∀ i, i < pc.s.length → (pc.objs (ptr pc i)).index = i

lemma Frame.refl {pc : PrioCache K V P} (hnd : pc.s.Nodup)
    (hidx : ∀ i, i < pc.s.length → (pc.objs (ptr pc i)).index = i) : Frame pc pc :=
  ⟨rfl, rfl, rfl, fun _ => rfl, fun _ => Iff.rfl, hnd, hidx⟩

lemma ptr_inj {pc : PrioCache K V P} (hnd : pc.s.Nodup) {a b : ℕ} (ha : a < pc.s.length)
    (hb : b < pc.s.length) (hab : ptr pc a = ptr pc b) : a = b :=
  (nodup_iff_getD 0).mp hnd a b ha hb hab

lemma Frame.key {pc₀ pc : PrioCache K V P} (hf : Frame pc₀ pc) (p : ℕ) :
    (pc.objs p).Key = (pc₀.objs p).Key :=
  congrArg (fun e => e.Key) (hf.entry p)

lemma Frame.trans {pc₀ pc pc' : PrioCache K V P} (hf : Frame pc₀ pc) (hf' : Frame pc pc') :
    Frame pc₀ pc' :=
  ⟨hf'.m.trans hf.m, hf'.limit.trans hf.limit, hf'.next.trans hf.next,
    fun p => (hf'.entry p).trans (hf.entry p), fun p => (hf'.mem p).trans (hf.mem p), hf'.nodup,
    hf'.indexed⟩

/-! ### What `Get` reads -/

lemma get_congr {pc pc' : PrioCache K V P} (hm : pc'.m = pc.m)
    (he : ∀ p, (pc'.objs p).toPrioEntry = (pc.objs p).toPrioEntry) : pc'.Get = pc.Get := by
  funext key
  simp only [PrioCache.Get, hm, he]

lemma Frame.get {pc₀ pc : PrioCache K V P} (hf : Frame pc₀ pc) : pc.Get = pc₀.Get :=
  get_congr hf.m hf.entry

lemma get_update_none [DecidableEq K] (pc : PrioCache K V P) (key : K) :
    ({ pc with m := Function.update pc.m key none } : PrioCache K V P).Get =
      Function.update pc.Get key none := by
  funext k
  by_cases hk : k = key
  · subst hk
    simp [PrioCache.Get]
  · simp [PrioCache.Get, hk]

lemma get_of_point [DecidableEq K] {pc pc' : PrioCache K V P} {key : K} {p : ℕ}
    (hm : pc'.m = Function.update pc.m key (some p)) (hother : ∀ k, k ≠ key → pc.m k ≠ some p)
    (he : ∀ q, q ≠ p → (pc'.objs q).toPrioEntry = (pc.objs q).toPrioEntry) :
    pc'.Get = Function.update pc.Get key (some ((pc'.objs p).Value, (pc'.objs p).Priority)) := by
  funext k
  by_cases hk : k = key
  · subst hk
    simp [PrioCache.Get, hm]
  · simp only [PrioCache.Get, hm, Function.update_of_ne hk]
    cases hq : pc.m k with
    | none => rfl
    | some q =>
      have hqp : q ≠ p := fun h => hother k hk (h ▸ hq)
      simp [he q hqp]

section Order

variable [LinearOrder P]

lemma ptr_swap (pc : PrioCache K V P) {i j : ℕ} (hi : i < pc.s.length) (hj : j < pc.s.length) (k : ℕ) :
    ptr (prioEntries.Swap pc i j) k = ptr pc (Equiv.swap i j k) :=
  getD_listSwap pc.s hi hj k 0

lemma prio_swap (pc : PrioCache K V P) {i j : ℕ} (hi : i < pc.s.length) (hj : j < pc.s.length) (k : ℕ) :
    prio (prioEntries.Swap pc i j) k = prio pc (Equiv.swap i j k) := by
  have hp := ptr_swap pc hi hj k
  unfold ptr at hp
  unfold prio
  rw [hp]
  exact congrArg PrioEntry.Priority (by simp [prioEntries])

lemma Frame.swap {pc₀ pc : PrioCache K V P} (hf : Frame pc₀ pc) {i j : ℕ} (hi : i < pc.s.length)
    (hj : j < pc.s.length) : Frame pc₀ (prioEntries.Swap pc i j) := by
  refine ⟨hf.m, hf.limit, hf.next, fun p => by simp [prioEntries, hf.entry p],
    fun p => (mem_listSwap hi hj p).trans (hf.mem p), nodup_listSwap hi hj hf.nodup, ?_⟩
  intro k hk
  simp only [prioEntries, length_listSwap] at hk
  have hne : ∀ a b, a < pc.s.length → b < pc.s.length → a ≠ b → ptr pc a ≠ ptr pc b :=
    fun a b ha hb hab heq => hab (ptr_inj hf.nodup ha hb heq)
  rw [ptr_swap pc hi hj k]
  change (setIndex (setIndex pc.objs (ptr pc i) j) (ptr pc j) i (ptr pc _)).index = k
  -- the entry now at `k` is the one that was at `swap i j k`
  by_cases hkj : k = j
  · subst hkj
    rw [Equiv.swap_apply_right]
    by_cases hik : i = k
    · subst hik
      rw [index_setIndex_self]
    · rw [setIndex_of_ne _ _ (hne i k hi hk hik), index_setIndex_self]
  by_cases hki : k = i
  · subst hki
    rw [Equiv.swap_apply_left, index_setIndex_self]
  · rw [Equiv.swap_apply_of_ne_of_ne hki hkj, setIndex_of_ne _ _ (hne k j hk hj hkj),
      setIndex_of_ne _ _ (hne k i hk hi hki), hf.indexed k hk]

lemma lawful (pc₀ : PrioCache K V P) : Lawful prioEntries (Frame pc₀) prio where
  swap := fun pc i j hf hi hj => ⟨hf.swap hi hj, by simp [prioEntries]⟩
  elem_swap := fun pc i j _ hi hj k => prio_swap pc hi hj k
  less := fun pc i j _ _ _ => by simp [prioEntries, prio]

/-! ### What `Set` is for -/

/-- What `Set` does to the cache's contents `M`, as `Get` reads them, with `n` entries under the
limit `L`: the key takes the value and priority, and when a new key would take the cache past
its limit, an entry of least priority leaves, possibly the new one. -/
def SetSpec [DecidableEq K] (L n : ℕ) (M : K → Option (V × P)) (key : K) (x : V × P)
    (M' : K → Option (V × P)) : Prop :=
  (M key ≠ none ∨ n < L → M' = Function.update M key (some x)) ∧
    (M key = none → n = L → ∃ e y, Function.update M key (some x) e = some y ∧
      (∀ k z, Function.update M key (some x) k = some z → y.2 ≤ z.2) ∧
      M' = Function.update (Function.update M key (some x)) e none)

omit [LinearOrder P] in
lemma update_some_eq [DecidableEq K] {M : K → Option (V × P)} {key k : K} {x y : V × P}
    (h : Function.update M key (some x) k = some y) : (k = key ∧ y = x) ∨ M k = some y := by
  by_cases hk : k = key
  · subst hk
    rw [Function.update_self, Option.some.injEq] at h
    exact .inl ⟨rfl, h.symm⟩
  · rw [Function.update_of_ne hk] at h
    exact .inr h

lemma SetSpec.get_some [DecidableEq K] {L n : ℕ} {M M' : K → Option (V × P)} {key : K}
    {x : V × P} (h : SetSpec L n M key x M') (hn : n ≤ L) {k : K} {y : V × P}
    (hk : M' k = some y) : (k = key ∧ y = x) ∨ M k = some y := by
  by_cases hc : M key ≠ none ∨ n < L
  · rw [h.1 hc] at hk
    exact update_some_eq hk
  · have hnone : M key = none := not_not.mp fun h' => hc (.inl h')
    obtain ⟨e, -, -, -, hM'⟩ := h.2 hnone (by omega)
    rw [hM'] at hk
    have hke : k ≠ e := by
      rintro rfl
      simp at hk
    rw [Function.update_of_ne hke] at hk
    exact update_some_eq hk

/-! ### The invariant -/

/-- The invariant but for the limit: the heap's pointers are distinct and allocated, each
entry's `index` is its position, `m` holds the heap's entries, and the heap is ordered by
priority. -/
structure PrioCache.Consistent (pc : PrioCache K V P) : Prop where
  nodup : pc.s.Nodup
  indexed : ∀ i, i < pc.s.length → (pc.objs (ptr pc i)).index = i
  lt_next : ∀ p ∈ pc.s, p < pc.next
  holds : Holds pc.m (· ∈ pc.s) fun p => (pc.objs p).Key
  ordered : Ordered prio pc pc.s.length

structure PrioCache.Wf (pc : PrioCache K V P) : Prop extends pc.Consistent where
  len_le : pc.s.length ≤ pc.limit

lemma PrioCache.Consistent.frame {pc : PrioCache K V P} (hc : pc.Consistent) : Frame pc pc :=
  Frame.refl hc.nodup hc.indexed

lemma Frame.consistent {pc₀ pc : PrioCache K V P} (hf : Frame pc₀ pc)
    (hholds : Holds pc₀.m (· ∈ pc₀.s) fun p => (pc₀.objs p).Key) (hnext : ∀ p ∈ pc₀.s, p < pc₀.next)
    (ho : Ordered prio pc pc.s.length) : pc.Consistent where
  nodup := hf.nodup
  indexed := hf.indexed
  lt_next := fun p hp => by
    rw [hf.next]
    exact hnext p ((hf.mem p).mp hp)
  holds := by
    rw [hf.m]
    exact hholds.congr hf.mem hf.key
  ordered := ho

lemma PrioCache.Consistent.exists_ptr {pc : PrioCache K V P} (hc : pc.Consistent) {p : ℕ} (hp : p ∈ pc.s) :
    ∃ i, i < pc.s.length ∧ ptr pc i = p ∧ (pc.objs p).index = i := by
  obtain ⟨i, hi, hpi⟩ := (mem_iff_getD 0).mp hp
  exact ⟨i, hi, hpi, hpi ▸ hc.indexed i hi⟩

lemma PrioCache.Consistent.get_prio {pc : PrioCache K V P} (hc : pc.Consistent) {key : K} {y : V × P}
    (hy : pc.Get key = some y) : ∃ j, j < pc.s.length ∧ y.2 = prio pc j := by
  obtain ⟨p, hp, rfl⟩ := Option.map_eq_some_iff.mp hy
  obtain ⟨j, hj, hpj, -⟩ := hc.exists_ptr ((hc.holds key p).mp hp).1
  refine ⟨j, hj, ?_⟩
  rw [← hpj]
  rfl

lemma PrioCache.Consistent.get_root {pc : PrioCache K V P} (hc : pc.Consistent) (hne : pc.s ≠ []) :
    pc.Get (pc.objs (ptr pc 0)).Key = some ((pc.objs (ptr pc 0)).Value, prio pc 0) := by
  have h0 : 0 < pc.s.length := List.length_pos_iff.mpr hne
  have hm := (hc.holds _ (ptr pc 0)).mpr ⟨(mem_iff_getD 0).mpr ⟨0, h0, rfl⟩, rfl⟩
  simp only [PrioCache.Get, hm, Option.map_some]
  rfl


/-! ### Popping -/

lemma pop_consistent {pc₀ u : PrioCache K V P} (hf : Frame pc₀ u) {n : ℕ}
    (hlen : u.s.length = n + 1) (ho : Ordered prio u n) (hnext : ∀ p ∈ pc₀.s, p < pc₀.next)
    {m' : K → Option ℕ}
    (hm' : Holds m' (fun p => p ∈ pc₀.s ∧ p ≠ ptr u n) fun p => (pc₀.objs p).Key) :
    (prioEntries.pop u).2 = ptr u n ∧ PrioCache.Consistent { (prioEntries.pop u).1 with m := m' } ∧
      ({ (prioEntries.pop u).1 with m := m' } : PrioCache K V P).s.length = n ∧
      ({ (prioEntries.pop u).1 with m := m' } : PrioCache K V P).limit = pc₀.limit ∧
      ({ (prioEntries.pop u).1 with m := m' } : PrioCache K V P).Get =
        ({ pc₀ with m := m' } : PrioCache K V P).Get := by
  have hlast : u.s.getD (u.s.length - 1) 0 = ptr u n := by rw [hlen]; rfl
  have hne : u.s ≠ [] := List.ne_nil_of_length_pos (by omega)
  -- the positions before `n` keep their pointers, none of which is the one dropped
  have hptr : ∀ k, k < n → u.s.dropLast.getD k 0 = ptr u k := fun k hk =>
    getD_dropLast (by omega) 0
  have hptr_ne : ∀ k, k < n → ptr u k ≠ ptr u n := fun k hk heq =>
    absurd (ptr_inj hf.nodup (by omega) (by omega) heq) (by omega)
  have hmem : ∀ p, p ∈ u.s.dropLast ↔ p ∈ pc₀.s ∧ p ≠ ptr u n := by
    intro p
    rw [mem_dropLast hf.nodup hne p 0, hlast, hf.mem]
  have hentry : ∀ p, (setIndex u.objs (ptr u n) (-1) p).toPrioEntry = (pc₀.objs p).toPrioEntry :=
    fun p => (toPrioEntry_setIndex _ _ _ p).trans (hf.entry p)
  have hq : (prioEntries.pop u).2 = ptr u n := hlast
  refine ⟨hq, ?_⟩
  simp only [prioEntries.pop, hlast]
  refine ⟨⟨nodup_dropLast hf.nodup, ?_, ?_, ?_, ?_⟩, by simp [hlen], hf.limit, ?_⟩
  · intro k hk
    simp only [List.length_dropLast, hlen, Nat.add_sub_cancel] at hk
    change (setIndex u.objs (ptr u n) (-1) (u.s.dropLast.getD k 0)).index = k
    rw [hptr k hk, setIndex_of_ne _ _ (hptr_ne k hk), hf.indexed k (by omega)]
  · intro p hp
    rw [hf.next]
    exact hnext p ((hmem p).mp hp).1
  · exact hm'.congr hmem fun p => congrArg (fun e => e.Key) (hentry p)
  · simp only [List.length_dropLast, hlen, Nat.add_sub_cancel]
    apply ho.of_agree
    intro k hk
    change (setIndex u.objs (ptr u n) (-1) (u.s.dropLast.getD k 0)).Priority = prio u k
    rw [hptr k hk]
    exact congrArg (fun e : PrioEntry K V P => e.Priority) (toPrioEntry_setIndex _ _ _ _)
  · exact get_congr rfl hentry

lemma PrioCache.popLowest_spec [DecidableEq K] {pc : PrioCache K V P} (hc : pc.Consistent) (hne : pc.s ≠ []) :
    pc.popLowest.Consistent ∧ pc.popLowest.s.length + 1 = pc.s.length ∧
      pc.popLowest.limit = pc.limit ∧
      ∃ e y, pc.Get e = some y ∧ (∀ k z, pc.Get k = some z → y.2 ≤ z.2) ∧
        pc.popLowest.Get = Function.update pc.Get e none := by
  obtain ⟨n, hlen⟩ : ∃ n, pc.s.length = n + 1 :=
    Nat.exists_eq_succ_of_ne_zero (by have := List.length_pos_iff.mpr hne; omega)
  have h0 : 0 < pc.s.length := by omega
  have hn : n < pc.s.length := by omega
  have hl := lawful pc
  -- `heap.Pop`: the root swapped to the end, then `down` from the root over the first `n`
  have hft : Frame pc (prioEntries.Swap pc 0 n) := hc.frame.swap h0 hn
  have hagree : ∀ k, k < n → k ≠ 0 → prio (prioEntries.Swap pc 0 n) k = prio pc k := by
    intro k hk hk0
    rw [prio_swap pc h0 hn, Equiv.swap_apply_of_ne_of_ne hk0 (by omega)]
  have o : DownOrder prio (prioEntries.Swap pc 0 n) n 0 :=
    ⟨((hc.ordered.mono (by omega)).except_of_agree hagree).1, fun h => absurd rfl h,
      fun h => absurd rfl h⟩
  have hnt : n ≤ prioEntries.Len (prioEntries.Swap pc 0 n) := by
    simp [prioEntries, hlen]
  have ho := downLoop_ordered hl n _ 0 hft hnt o
  obtain ⟨hfu, hlenu⟩ := downLoop_keeps prioEntries hl.swap n _ 0 hft hnt
  have hroot := downLoop_view_of_le prioEntries hl.swap (fun s i j _ hi hj k => ptr_swap s hi hj k)
    n _ 0 hft hnt n (Nat.le_refl n)
  rw [ptr_swap pc h0 hn, Equiv.swap_apply_right] at hroot
  have hr : Heap.Pop prioEntries prioEntries.pop pc =
      prioEntries.pop (downLoop prioEntries n (prioEntries.Swap pc 0 n) 0).1 := by
    simp only [Heap.Pop, Heap.down]
    rw [show prioEntries.Len pc - 1 = n by simp [prioEntries, hlen]]
  generalize (downLoop prioEntries n (prioEntries.Swap pc 0 n) 0).1 = u at ho hfu hlenu hroot hr
  have hlenu' : u.s.length = n + 1 := by
    rw [show u.s.length = prioEntries.Len u from rfl, hlenu]
    simp [prioEntries, hlen]
  have hmem : ptr u n ∈ pc.s := hroot ▸ (mem_iff_getD 0).mpr ⟨0, h0, rfl⟩
  obtain ⟨hq, hcons, hlen', hlim, hget⟩ := pop_consistent hfu hlenu' ho hc.lt_next
    (hc.holds.erase hmem)
  -- the key dropped is the one of the entry `down` left last
  have hkey : ((prioEntries.pop u).1.objs (prioEntries.pop u).2).Key = (pc.objs (ptr u n)).Key := by
    rw [hq]
    exact (congrArg (fun e : PrioEntry K V P => e.Key) (toPrioEntry_setIndex _ _ _ _)).trans
      (hfu.key _)
  have hm : (prioEntries.pop u).1.m = pc.m := hfu.m
  have hpop : pc.popLowest =
      { (prioEntries.pop u).1 with m := Function.update pc.m (pc.objs (ptr u n)).Key none } := by
    rw [PrioCache.popLowest, if_neg (by omega), hr]
    dsimp only
    rw [hkey, hm]
  rw [hpop]
  refine ⟨hcons, by omega, hlim, (pc.objs (ptr u n)).Key, ((pc.objs (ptr u n)).Value, prio pc 0), ?_,
    ?_, ?_⟩
  · rw [hroot]
    exact hc.get_root hne
  · intro k z hz
    obtain ⟨j, hj, hzj⟩ := hc.get_prio hz
    rw [hzj]
    exact not_lt.mp (root_least hc.ordered j hj)
  · rw [hget, get_update_none]

/-! ### Pushing -/

lemma push_ordered {pc : PrioCache K V P} (hf : Frame pc pc) (ho : Ordered prio pc pc.s.length)
    {p : ℕ} (hp : p ∉ pc.s) :
    Frame (prioEntries.push p pc) (Heap.Push prioEntries (prioEntries.push p) pc) ∧
      (Heap.Push prioEntries (prioEntries.push p) pc).s.length = pc.s.length + 1 ∧
      Ordered prio (Heap.Push prioEntries (prioEntries.push p) pc) (pc.s.length + 1) := by
  have hlen : (prioEntries.push p pc).s.length = pc.s.length + 1 := by simp [prioEntries.push]
  have hptr : ∀ k, k < pc.s.length → ptr (prioEntries.push p pc) k = ptr pc k := fun k hk =>
    getD_append_of_lt hk p 0
  have hne : ∀ k, k < pc.s.length → ptr pc k ≠ p := fun k hk h =>
    hp (h ▸ (mem_iff_getD 0).mpr ⟨k, hk, rfl⟩)
  -- the new pointer sits at the new last position, which its `index` names
  have hf' : Frame (prioEntries.push p pc) (prioEntries.push p pc) := by
    refine Frame.refl (List.nodup_append.mpr ⟨hf.nodup, List.nodup_singleton p, ?_⟩) ?_
    · intro a ha b hb hab
      rw [List.mem_singleton.mp hb] at hab
      exact hp (hab ▸ ha)
    · intro k hk
      rw [hlen] at hk
      by_cases hkn : k < pc.s.length
      · rw [hptr k hkn]
        change (setIndex pc.objs p pc.s.length (ptr pc k)).index = k
        rw [setIndex_of_ne _ _ (hne k hkn), hf.indexed k hkn]
      · obtain rfl : k = pc.s.length := by omega
        change (setIndex pc.objs p pc.s.length ((pc.s ++ [p]).getD pc.s.length 0)).index = pc.s.length
        rw [getD_append_length, index_setIndex_self]
  have ho' : Ordered prio (prioEntries.push p pc) pc.s.length := ho.of_agree fun k hk => by
    change (setIndex pc.objs p pc.s.length (ptr (prioEntries.push p pc) k)).Priority = prio pc k
    rw [hptr k hk]
    exact congrArg (fun e : PrioEntry K V P => e.Priority) (toPrioEntry_setIndex _ _ _ _)
  have hl := lawful (prioEntries.push p pc)
  have hLen : prioEntries.Len (prioEntries.push p pc) = pc.s.length + 1 := hlen
  have hpush : Heap.Push prioEntries (prioEntries.push p) pc =
      up prioEntries (prioEntries.push p pc) pc.s.length := by
    simp only [Heap.Push, hLen, Nat.add_sub_cancel]
  obtain ⟨hfu, hlenu⟩ := up_keeps prioEntries hl.swap _ pc.s.length hf' (by omega)
  rw [hpush]
  exact ⟨hfu, hlenu.trans hLen, up_ordered hl _ pc.s.length hf' (by omega) (by omega) ho'.upOrder_push⟩

/-! ### `Set` -/

lemma PrioCache.set_of_some [DecidableEq K] {pc : PrioCache K V P} (hw : pc.Wf) {key : K} {p : ℕ}
    (hp : pc.m key = some p) (value : V) (priority : P) :
    (pc.Set key value priority).Wf ∧ (pc.Set key value priority).limit = pc.limit ∧
      (pc.Set key value priority).Get = Function.update pc.Get key (some (value, priority)) := by
  obtain ⟨hps, hkey⟩ := (hw.holds key p).mp hp
  obtain ⟨i, hi, hpi, hidx⟩ := hw.exists_ptr hps
  obtain ⟨pc₁, hpc₁⟩ : ∃ pc₁ : PrioCache K V P, pc₁ = { pc with
      objs := Function.update pc.objs p { pc.objs p with Value := value, Priority := priority } } :=
    ⟨_, rfl⟩
  have hset : pc.Set key value priority = fixAt prioEntries pc₁ i pc.s.length := by
    subst hpc₁
    simp only [PrioCache.Set, hp, Function.update_self, hidx, Int.toNat_natCast]
    rfl
  have hentry := update_entry pc.objs p value priority
  have hs : pc₁.s = pc.s := by rw [hpc₁]
  have hobj : ∀ q, q ≠ p → pc₁.objs q = pc.objs q := fun q hq => by
    rw [hpc₁]
    exact Function.update_of_ne hq _ _
  have hf₁ : Frame pc₁ pc₁ := by
    refine Frame.refl (hs ▸ hw.nodup) fun k hk => ?_
    rw [hpc₁]
    exact (hentry _).2.trans (hw.indexed k (hs ▸ hk))
  -- only position `i` changed, so the heap is ordered off `i`
  have hagree : ∀ k, k < pc.s.length → k ≠ i → prio pc₁ k = prio pc k := by
    intro k hk hki
    have hne : ptr pc k ≠ p := fun h => hki (ptr_inj hw.nodup hk hi (h.trans hpi.symm))
    change (pc₁.objs (pc₁.s.getD k 0)).Priority = prio pc k
    rw [hs, hobj (pc.s.getD k 0) hne]
    rfl
  obtain ⟨hex, hgrand⟩ := hw.ordered.except_of_agree hagree
  have hlen₁ : prioEntries.Len pc₁ = pc.s.length := congrArg List.length hs
  have ho := fixAt_ordered (lawful pc₁) pc₁ hf₁ (Nat.le_of_eq hlen₁.symm) hi hex hgrand
  obtain ⟨hf, hlen⟩ :=
    fixAt_keeps prioEntries (lawful pc₁).swap pc₁ i pc.s.length hf₁ hi (Nat.le_of_eq hlen₁.symm)
  have hlen' : (fixAt prioEntries pc₁ i pc.s.length).s.length = pc.s.length := hlen.trans hlen₁
  have hholds : Holds pc₁.m (· ∈ pc₁.s) fun q => (pc₁.objs q).Key := by
    rw [hpc₁]
    exact hw.holds.congr (fun _ => Iff.rfl) fun q => (hentry q).1
  have hnext : ∀ q ∈ pc₁.s, q < pc₁.next := by
    rw [hpc₁]
    exact hw.lt_next
  rw [hset]
  have hlim : (fixAt prioEntries pc₁ i pc.s.length).limit = pc.limit := by
    rw [hf.limit, hpc₁]
  refine ⟨⟨hf.consistent hholds hnext (by rw [hlen']; exact ho), ?_⟩, hlim, ?_⟩
  · rw [hlen', hlim]
    exact hw.len_le
  · rw [hf.get]
    have hm₁ : pc₁.m = Function.update pc.m key (some p) := by
      rw [hpc₁, ← hp, Function.update_eq_self]
    have hother : ∀ k, k ≠ key → pc.m k ≠ some p := fun k hk h =>
      hk (((hw.holds k p).mp h).2.symm.trans hkey)
    rw [get_of_point hm₁ hother fun q hq => by rw [hobj q hq]]
    simp only [hpc₁, Function.update_self]

lemma PrioCache.set_of_none [DecidableEq K] {pc : PrioCache K V P} (hw : pc.Wf) {key : K}
    (hk : pc.m key = none) (value : V) (priority : P) :
    (pc.Set key value priority).Wf ∧ (pc.Set key value priority).limit = pc.limit ∧
      SetSpec pc.limit pc.s.length pc.Get key (value, priority) (pc.Set key value priority).Get := by
  -- `pc₁` stores the entry, `heap.Push` makes `r`, and `pc₄` puts it in the map
  obtain ⟨pc₁, hpc₁⟩ : ∃ pc₁ : PrioCache K V P, pc₁ = { pc with
      objs := Function.update pc.objs pc.next ⟨⟨⟨key, value⟩, priority⟩, 0⟩, next := pc.next + 1 } :=
    ⟨_, rfl⟩
  obtain ⟨r, hr⟩ : ∃ r, r = Heap.Push prioEntries (prioEntries.push pc.next) pc₁ := ⟨_, rfl⟩
  obtain ⟨pc₄, hpc₄⟩ : ∃ pc₄ : PrioCache K V P,
      pc₄ = { r with m := Function.update r.m key (some pc.next) } := ⟨_, rfl⟩
  have hset : pc.Set key value priority = if pc₄.s.length > pc₄.limit then pc₄.popLowest else pc₄ := by
    subst hpc₄ hr hpc₁
    simp only [PrioCache.Set, hk]
  have hp : pc.next ∉ pc.s := fun h => Nat.lt_irrefl _ (hw.lt_next _ h)
  have hs : pc₁.s = pc.s := by rw [hpc₁]
  have hobj : ∀ q, q ≠ pc.next → pc₁.objs q = pc.objs q := fun q hq => by
    rw [hpc₁]
    exact Function.update_of_ne hq _ _
  have hnew : pc₁.objs pc.next = ⟨⟨⟨key, value⟩, priority⟩, 0⟩ := by
    rw [hpc₁]
    exact Function.update_self _ _ _
  have hne : ∀ k, k < pc.s.length → ptr pc k ≠ pc.next := fun k hk h =>
    hp (h ▸ (mem_iff_getD 0).mpr ⟨k, hk, rfl⟩)
  have hf₁ : Frame pc₁ pc₁ := by
    refine Frame.refl (hs ▸ hw.nodup) fun k hk => ?_
    have hk' : k < pc.s.length := hs ▸ hk
    change (pc₁.objs (pc₁.s.getD k 0)).index = k
    rw [hs, hobj (pc.s.getD k 0) (hne k hk')]
    exact hw.indexed k hk'
  have ho₁ : Ordered prio pc₁ pc₁.s.length := by
    rw [hs]
    refine hw.ordered.of_agree fun k hk => ?_
    change (pc₁.objs (pc₁.s.getD k 0)).Priority = prio pc k
    rw [hs, hobj (pc.s.getD k 0) (hne k hk)]
    rfl
  obtain ⟨hfr, hlenr, hor⟩ := push_ordered hf₁ ho₁ (hs ▸ hp)
  rw [← hr] at hfr hlenr hor
  rw [hs] at hlenr hor
  -- what `r` keeps of `pc₁`: the map, the limit, the entries, and the pointers with the new one
  have hrm : r.m = pc.m := by
    rw [hfr.m, hpc₁]
    rfl
  have hrlim : r.limit = pc.limit := by
    rw [hfr.limit, hpc₁]
    rfl
  have hrnext : r.next = pc.next + 1 := by
    rw [hfr.next, hpc₁]
    rfl
  have hrent : ∀ q, (r.objs q).toPrioEntry = (pc₁.objs q).toPrioEntry := fun q =>
    (hfr.entry q).trans (toPrioEntry_setIndex _ _ _ q)
  have hrmem : ∀ q, q ∈ r.s ↔ q ∈ pc.s ∨ q = pc.next := fun q => by
    rw [hfr.mem]
    change q ∈ pc₁.s ++ [pc.next] ↔ _
    rw [hs, List.mem_append, List.mem_singleton]
  have hkey : (r.objs pc.next).Key = key := by
    rw [congrArg (fun e : PrioEntry K V P => e.Key) (hrent pc.next), hnew]
  have hother : ∀ q, q ≠ pc.next → (r.objs q).Key = (pc.objs q).Key := fun q hq => by
    rw [congrArg (fun e : PrioEntry K V P => e.Key) (hrent q), hobj q hq]
  have hc₄ : pc₄.Consistent := by
    subst hpc₄
    refine ⟨hfr.nodup, hfr.indexed, fun q hq => ?_, ?_, ?_⟩
    · rw [hrnext]
      rcases (hrmem q).mp hq with hq | rfl
      · exact Nat.lt_succ_of_lt (hw.lt_next q hq)
      · exact Nat.lt_succ_self _
    · rw [hrm]
      exact (hw.holds.insert hk hp hkey hother).congr hrmem fun _ => rfl
    · change Ordered prio r r.s.length
      rw [hlenr]
      exact hor
  have hlen₄ : pc₄.s.length = pc.s.length + 1 := by rw [hpc₄]; exact hlenr
  have hlim₄ : pc₄.limit = pc.limit := by rw [hpc₄]; exact hrlim
  have hget₄ : pc₄.Get = Function.update pc.Get key (some (value, priority)) := by
    have hm₄ : pc₄.m = Function.update pc.m key (some pc.next) := by rw [hpc₄, hrm]
    have hfree : ∀ k, k ≠ key → pc.m k ≠ some pc.next := fun k _ h => hp ((hw.holds k _).mp h).1
    have he : ∀ q, q ≠ pc.next → (pc₄.objs q).toPrioEntry = (pc.objs q).toPrioEntry := fun q hq => by
      rw [hpc₄]
      exact (hrent q).trans (by rw [hobj q hq])
    rw [get_of_point hm₄ hfree he]
    have hnew' := hrent pc.next
    rw [hnew] at hnew'
    rw [hpc₄]
    change Function.update pc.Get key (some ((r.objs pc.next).toPrioEntry.Value,
      (r.objs pc.next).toPrioEntry.Priority)) = _
    rw [hnew']
  have hnone : pc.Get key = none := by simp [PrioCache.Get, hk]
  rw [hset]
  by_cases hover : pc₄.s.length > pc₄.limit
  · -- the heap outgrew the limit by one: `popLowest` drops a least entry
    rw [if_pos hover]
    have hL : pc.s.length = pc.limit := by have := hw.len_le; omega
    obtain ⟨hc', hlen', hlim', e, y, hy, hmin, hget'⟩ :=
      popLowest_spec hc₄ (List.ne_nil_of_length_pos (by omega))
    refine ⟨⟨hc', by omega⟩, hlim'.trans hlim₄, fun h => ?_, fun _ _ => ?_⟩
    · rcases h with h | h
      · exact absurd hnone h
      · omega
    · rw [hget₄] at hy hmin hget'
      exact ⟨e, y, hy, hmin, hget'⟩
  · rw [if_neg hover]
    refine ⟨⟨hc₄, by omega⟩, hlim₄, fun _ => hget₄, fun _ hL => absurd hover ?_⟩
    omega

/-- `Set` meets `SetSpec` and keeps the invariant. -/
lemma PrioCache.set_spec [DecidableEq K] {pc : PrioCache K V P} (hw : pc.Wf) (key : K) (value : V)
    (priority : P) :
    (pc.Set key value priority).Wf ∧ (pc.Set key value priority).limit = pc.limit ∧
      SetSpec pc.limit pc.s.length pc.Get key (value, priority) (pc.Set key value priority).Get := by
  cases hk : pc.m key with
  | none => exact set_of_none hw hk value priority
  | some p =>
    obtain ⟨hw', hlim, hget⟩ := set_of_some hw hk value priority
    refine ⟨hw', hlim, fun _ => hget, fun hnone => absurd hnone ?_⟩
    simp [PrioCache.Get, hk]

/-! ### `Remove` -/

lemma PrioCache.remove_of_some [DecidableEq K] {pc : PrioCache K V P} (hw : pc.Wf) {key : K} {p : ℕ}
    (hp : pc.m key = some p) :
    (pc.Remove key).1.Wf ∧ (pc.Remove key).1.limit = pc.limit ∧
      (pc.Remove key).1.Get = Function.update pc.Get key none ∧
      (pc.Remove key).2 = some (pc.objs p).toPrioEntry := by
  obtain ⟨hps, hkey⟩ := (hw.holds key p).mp hp
  obtain ⟨i, hi, hpi, hidx⟩ := hw.exists_ptr hps
  obtain ⟨n, hlen⟩ : ∃ n, pc.s.length = n + 1 := Nat.exists_eq_succ_of_ne_zero (by omega)
  obtain ⟨pc₁, hpc₁⟩ : ∃ pc₁ : PrioCache K V P, pc₁ = { pc with m := Function.update pc.m key none } :=
    ⟨_, rfl⟩
  obtain ⟨u, hu⟩ : ∃ u, u =
      if n ≠ i then fixAt prioEntries (prioEntries.Swap pc₁ i n) i n else pc₁ := ⟨_, rfl⟩
  have hrem : pc.Remove key =
      ((prioEntries.pop u).1, some ((prioEntries.pop u).1.objs p).toPrioEntry) := by
    have hLen : prioEntries.Len pc₁ - 1 = n := by
      rw [hpc₁]
      exact congrArg (· - 1) hlen
    subst hu
    rw [← hLen]
    subst hpc₁
    simp only [PrioCache.Remove, hp, hidx, Int.toNat_natCast]
    rfl
  have hs : pc₁.s = pc.s := by rw [hpc₁]
  have hf₁ : Frame pc₁ pc₁ := by
    rw [hpc₁]
    exact Frame.refl hw.nodup hw.indexed
  have ho₁ : Ordered prio pc₁ (n + 1) := by
    rw [← hlen, hpc₁]
    exact hw.ordered
  have hlen₁ : pc₁.s.length = n + 1 := hs ▸ hlen
  -- the entry reaches the last position, before which the heap is ordered
  have hu' : Frame pc₁ u ∧ u.s.length = n + 1 ∧ Ordered prio u n ∧ ptr u n = p := by
    by_cases hni : n = i
    · rw [hu, if_neg (not_not.mpr hni)]
      refine ⟨hf₁, hlen₁, ho₁.mono (Nat.le_succ n), ?_⟩
      rw [hni, ← hpi, hpc₁]
      rfl
    · rw [hu, if_pos hni]
      have hin : i < n := by omega
      have hft := hf₁.swap (hlen₁ ▸ (by omega : i < n + 1)) (hlen₁ ▸ (by omega : n < n + 1))
      have hagree : ∀ k, k < n → k ≠ i → prio (prioEntries.Swap pc₁ i n) k = prio pc₁ k := by
        intro k hk hki
        rw [prio_swap pc₁ (by omega) (by omega), Equiv.swap_apply_of_ne_of_ne hki (by omega)]
      obtain ⟨hex, hgrand⟩ := (ho₁.mono (Nat.le_succ n)).except_of_agree hagree
      have hnt : n ≤ prioEntries.Len (prioEntries.Swap pc₁ i n) := by
        simp [prioEntries, hlen₁]
      have hl := lawful pc₁
      obtain ⟨hfu, hlenu⟩ := fixAt_keeps prioEntries hl.swap _ i n hft hin hnt
      have hview := fixAt_view_of_le prioEntries hl.swap (fun s i j _ hi hj k => ptr_swap s hi hj k)
        _ i n hft hin hnt n (Nat.le_refl n)
      refine ⟨hfu, ?_, fixAt_ordered hl _ hft hnt hin hex hgrand, ?_⟩
      · rw [show (fixAt prioEntries (prioEntries.Swap pc₁ i n) i n).s.length =
          prioEntries.Len (fixAt prioEntries (prioEntries.Swap pc₁ i n) i n) from rfl, hlenu]
        simp [prioEntries, hlen₁]
      · rw [hview, ptr_swap pc₁ (by omega) (by omega), Equiv.swap_apply_right, ← hpi, hpc₁]
        rfl
  obtain ⟨hfu, hlenu, hou, hptr⟩ := hu'
  have hholds : Holds pc₁.m (fun q => q ∈ pc₁.s ∧ q ≠ ptr u n) fun q => (pc₁.objs q).Key := by
    have h := hw.holds.erase hps
    rw [show (pc.objs p).Key = key from hkey] at h
    rw [hpc₁, hptr]
    exact h
  obtain ⟨-, hc, hlen', hlim, hget⟩ := pop_consistent hfu hlenu hou (by rw [hpc₁]; exact hw.lt_next) hholds
  have heq : ({ (prioEntries.pop u).1 with m := pc₁.m } : PrioCache K V P) = (prioEntries.pop u).1 := by
    rw [← hfu.m]
    rfl
  rw [heq] at hc hlen' hlim hget
  have hlim₁ : pc₁.limit = pc.limit := by rw [hpc₁]
  have hobjs : (prioEntries.pop u).1.objs = setIndex u.objs (ptr u n) (-1) := by
    simp only [prioEntries.pop, hlenu, Nat.add_sub_cancel]
    rfl
  rw [hrem]
  refine ⟨⟨hc, ?_⟩, hlim.trans hlim₁, ?_, ?_⟩
  · rw [hlen', hlim, hlim₁]
    have := hw.len_le
    omega
  · rw [hget, hpc₁, get_update_none]
  · rw [Option.some.injEq, hobjs, toPrioEntry_setIndex, hfu.entry, hpc₁]

/-- `Remove` forgets the key and returns its entry, if any, and keeps the invariant. -/
lemma PrioCache.remove_spec [DecidableEq K] {pc : PrioCache K V P} (hw : pc.Wf) (key : K) :
    (pc.Remove key).1.Wf ∧ (pc.Remove key).1.limit = pc.limit ∧
      (pc.Remove key).1.Get = Function.update pc.Get key none ∧
      (pc.Remove key).2.map (fun e => (e.Value, e.Priority)) = pc.Get key := by
  cases hk : pc.m key with
  | none =>
    have hrem : pc.Remove key = (pc, none) := by simp [PrioCache.Remove, hk]
    have hnone : pc.Get key = none := by simp [PrioCache.Get, hk]
    rw [hrem, ← hnone, Function.update_eq_self]
    exact ⟨hw, rfl, rfl, hnone.symm⟩
  | some p =>
    obtain ⟨hw', hlim, hget, hent⟩ := remove_of_some hw hk
    refine ⟨hw', hlim, hget, ?_⟩
    rw [hent]
    simp [PrioCache.Get, hk]

/-! ### Runs -/

lemma newPrioCache_wf [Inhabited K] [Inhabited V] [Inhabited P] {L : ℤ} (hL : 1 ≤ L) :
    ∃ pc : PrioCache K V P, NewPrioCache L = some pc ∧ pc.Wf ∧ pc.limit = L.toNat := by
  refine ⟨_, if_neg (by omega), ⟨⟨List.nodup_nil, fun _ h => absurd h (Nat.not_lt_zero _),
    fun _ h => absurd h List.not_mem_nil, fun _ _ => ?_, fun _ _ h => absurd h (Nat.not_lt_zero _)⟩,
    Nat.zero_le _⟩, rfl⟩
  simp

/-- One operation keeps the invariant and the limit. -/
lemma PrioCache.wf_step [DecidableEq K] {pc : PrioCache K V P} (hw : pc.Wf) (op : PrioOp K V P) :
    (pc.step op).Wf ∧ (pc.step op).limit = pc.limit := by
  cases op with
  | Set key value priority =>
    obtain ⟨hw', hlim, -⟩ := set_spec hw key value priority
    exact ⟨hw', hlim⟩
  | Remove key =>
    obtain ⟨hw', hlim, -⟩ := remove_spec hw key
    exact ⟨hw', hlim⟩
  | Get _ => exact ⟨hw, rfl⟩

lemma PrioCache.wf_run [DecidableEq K] (ops : List (PrioOp K V P)) :
    ∀ pc : PrioCache K V P, pc.Wf → (pc.run ops).Wf ∧ (pc.run ops).limit = pc.limit := by
  induction ops with
  | nil => exact fun pc hw => ⟨hw, rfl⟩
  | cons op ops ih =>
    intro pc hw
    obtain ⟨hw', hlim⟩ := wf_step hw op
    obtain ⟨hw'', hlim'⟩ := ih _ hw'
    exact ⟨hw'', hlim'.trans hlim⟩

end Order

end AuthorityBlock.Cache
