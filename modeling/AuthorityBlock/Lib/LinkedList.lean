import Mathlib
import AuthorityBlock.Lib.Walk

/-! Doubly linked lists kept in pointer maps. A node's `next` and `prev` are its neighbours
and `head` and `tail` the two ends; `Represents` says that the maps encode a list without
repeats and leave every other node unlinked. Appending at the tail and unlinking a node keep
the encoding, with the new maps given pointwise so that any order of writes fits, and
following `next` from the head walks the list. -/

namespace LinkedList

variable {α : Type} [DecidableEq α]

/-- The node after the first `x` in `l`. -/
def succIn : List α → α → Option α
  | [], _ => none
  | y :: l, x => if x = y then l.head? else succIn l x

/-- The node before `x` in `l`. -/
def predIn (l : List α) (x : α) : Option α := succIn l.reverse x

section Lists

variable {l : List α} {x y : α}

@[simp] lemma succIn_nil (x : α) : succIn [] x = none := rfl

lemma succIn_cons (y : α) (l : List α) (x : α) :
    succIn (y :: l) x = if x = y then l.head? else succIn l x := rfl

lemma mem_of_succIn (h : succIn l x = some y) : x ∈ l ∧ y ∈ l := by
  induction l with
  | nil => cases h
  | cons a t ih =>
    rw [succIn_cons] at h
    by_cases hx : x = a
    · rw [if_pos hx] at h
      exact ⟨hx ▸ List.mem_cons_self, List.mem_cons_of_mem _ (List.mem_of_mem_head? h)⟩
    · rw [if_neg hx] at h
      obtain ⟨h1, h2⟩ := ih h
      exact ⟨List.mem_cons_of_mem _ h1, List.mem_cons_of_mem _ h2⟩

lemma succIn_of_not_mem (h : x ∉ l) : succIn l x = none := by
  cases hs : succIn l x with
  | none => rfl
  | some y => exact absurd (mem_of_succIn hs).1 h

lemma mem_of_predIn (h : predIn l x = some y) : x ∈ l ∧ y ∈ l := by
  simpa using mem_of_succIn h

lemma predIn_of_not_mem (h : x ∉ l) : predIn l x = none :=
  succIn_of_not_mem (by simpa using h)

lemma succIn_eq_some_iff (hnd : l.Nodup) : succIn l x = some y ↔ [x, y] <:+: l := by
  induction l with
  | nil => simp
  | cons a t ih =>
    obtain ⟨ha, ht⟩ := List.nodup_cons.mp hnd
    rw [succIn_cons, List.infix_cons_iff, List.cons_prefix_cons]
    by_cases hx : x = a
    · subst hx
      have hinf : ¬[x, y] <:+: t := fun h => ha (h.subset List.mem_cons_self)
      simp only [if_true, true_and, hinf, or_false]
      cases t <;> simp [eq_comm]
    · simp [hx, ih ht]

lemma predIn_eq_some_iff (hnd : l.Nodup) : predIn l x = some y ↔ succIn l y = some x := by
  rw [predIn, succIn_eq_some_iff (List.nodup_reverse.mpr hnd), succIn_eq_some_iff hnd,
    ← List.reverse_infix]
  simp

lemma succIn_ne_self (hnd : l.Nodup) : succIn l x ≠ some x := by
  induction l with
  | nil => simp
  | cons a t ih =>
    obtain ⟨ha, ht⟩ := List.nodup_cons.mp hnd
    rw [succIn_cons]
    by_cases hx : x = a
    · subst hx
      rw [if_pos rfl]
      exact fun h => ha (List.mem_of_mem_head? h)
    · rw [if_neg hx]
      exact ih ht

lemma succIn_succIn_ne (hnd : l.Nodup) (h : succIn l x = some y) : succIn l y ≠ some x := by
  induction l with
  | nil => cases h
  | cons a t ih =>
    obtain ⟨ha, ht⟩ := List.nodup_cons.mp hnd
    rw [succIn_cons] at h ⊢
    by_cases hx : x = a
    · subst hx
      rw [if_pos rfl] at h
      have hy : y ∈ t := List.mem_of_mem_head? h
      have hya : y ≠ x := fun hya => ha (hya ▸ hy)
      rw [if_neg hya]
      exact fun h' => ha (mem_of_succIn h').2
    · rw [if_neg hx] at h
      have hy : y ∈ t := (mem_of_succIn h).2
      have hya : y ≠ a := fun hya => ha (hya ▸ hy)
      rw [if_neg hya]
      exact ih ht h

lemma succIn_append_cons (p s : List α) (hx : x ∉ p) : succIn (p ++ x :: s) x = s.head? := by
  induction p with
  | nil => simp [succIn_cons]
  | cons a p ih =>
    have hxa : x ≠ a := fun h => hx (h ▸ List.mem_cons_self)
    rw [List.cons_append, succIn_cons, if_neg hxa, ih fun h => hx (List.mem_cons_of_mem _ h)]

omit [DecidableEq α] in
lemma eq_singleton_of_head?_of_getLast? (hnd : l.Nodup) (hh : l.head? = some x)
    (ht : l.getLast? = some x) : l = [x] := by
  cases l with
  | nil => cases hh
  | cons a t =>
    obtain rfl : a = x := Option.some_inj.mp hh
    cases t with
    | nil => rfl
    | cons b t =>
      rw [List.getLast?_cons_cons] at ht
      exact absurd (List.mem_of_getLast? ht) (List.nodup_cons.mp hnd).1

lemma succIn_eq_none_iff (hnd : l.Nodup) (hx : x ∈ l) :
    succIn l x = none ↔ l.getLast? = some x := by
  obtain ⟨p, s, rfl⟩ := List.append_of_mem hx
  have hxs : x ∉ s := fun h => by simp [List.nodup_append] at hnd; grind
  have hxp : x ∉ p := fun h => by simp [List.nodup_append] at hnd; grind
  rw [succIn_append_cons p s hxp, List.getLast?_append]
  cases s with
  | nil => simp
  | cons b s =>
    have hlast : (b :: s).getLast? ≠ some x := fun h => hxs (List.mem_of_getLast? h)
    simpa [List.getLast?_cons_cons] using hlast

lemma predIn_eq_none_iff (hnd : l.Nodup) (hx : x ∈ l) :
    predIn l x = none ↔ l.head? = some x := by
  rw [predIn, succIn_eq_none_iff (List.nodup_reverse.mpr hnd) (List.mem_reverse.mpr hx),
    List.getLast?_reverse]

lemma succIn_append_singleton (hnd : l.Nodup) (hx : x ∉ l) (y : α) :
    succIn (l ++ [x]) y = if l.getLast? = some y then some x else succIn l y := by
  induction l with
  | nil => simp [succIn_cons]
  | cons a t ih =>
    obtain ⟨ha, ht⟩ := List.nodup_cons.mp hnd
    have hxt : x ∉ t := fun h => hx (List.mem_cons_of_mem _ h)
    rw [List.cons_append, succIn_cons, succIn_cons]
    by_cases hy : y = a
    · subst hy
      cases t with
      | nil => simp
      | cons b t =>
        have hlast : (y :: b :: t).getLast? ≠ some y := by
          rw [List.getLast?_cons_cons]
          exact fun h => ha (List.mem_of_getLast? h)
        rw [if_pos rfl, if_neg hlast, if_pos rfl]
        rfl
    · rw [if_neg hy, if_neg hy, ih ht hxt]
      cases t with
      | nil => simp [Ne.symm hy]
      | cons b t => rw [List.getLast?_cons_cons]

lemma predIn_append_singleton (l : List α) (x y : α) :
    predIn (l ++ [x]) y = if y = x then l.getLast? else predIn l y := by
  simp [predIn, succIn_cons, List.head?_reverse]

lemma succIn_erase (hnd : l.Nodup) (hx : x ∈ l) (hy : y ≠ x) :
    succIn (l.erase x) y = if succIn l y = some x then succIn l x else succIn l y := by
  induction l with
  | nil => cases hx
  | cons a t ih =>
    obtain ⟨ha, ht⟩ := List.nodup_cons.mp hnd
    by_cases hxa : x = a
    · subst hxa
      have hne : succIn t y ≠ some x := fun h => ha (mem_of_succIn h).2
      rw [List.erase_cons_head, succIn_cons, if_neg hy, if_neg hne]
    · have hxt : x ∈ t := (List.mem_cons.mp hx).resolve_left hxa
      rw [List.erase_cons_tail (by simpa using Ne.symm hxa), succIn_cons, succIn_cons,
        succIn_cons, if_neg hxa]
      by_cases hya : y = a
      · subst hya
        simp only [if_true]
        cases t with
        | nil => cases hxt
        | cons b t =>
          by_cases hxb : x = b
          · subst hxb
            simp [succIn_cons]
          · rw [List.erase_cons_tail (by simpa using Ne.symm hxb)]
            simp [Ne.symm hxb]
      · rw [if_neg hya, if_neg hya, ih ht hxt]

lemma reverse_erase (hnd : l.Nodup) (x : α) : (l.erase x).reverse = l.reverse.erase x := by
  rw [hnd.erase_eq_filter, (List.nodup_reverse.mpr hnd).erase_eq_filter, List.filter_reverse]

lemma predIn_erase (hnd : l.Nodup) (hx : x ∈ l) (hy : y ≠ x) :
    predIn (l.erase x) y = if predIn l y = some x then predIn l x else predIn l y := by
  rw [predIn, predIn, predIn, reverse_erase hnd,
    succIn_erase (List.nodup_reverse.mpr hnd) (List.mem_reverse.mpr hx) hy]

lemma head?_erase (hnd : l.Nodup) (hx : x ∈ l) :
    (l.erase x).head? = if l.head? = some x then succIn l x else l.head? := by
  cases l with
  | nil => cases hx
  | cons a t =>
    by_cases hxa : x = a
    · subst hxa
      simp [succIn_cons]
    · rw [List.erase_cons_tail (by simpa using Ne.symm hxa)]
      simp [Ne.symm hxa]

lemma getLast?_erase (hnd : l.Nodup) (hx : x ∈ l) :
    (l.erase x).getLast? = if l.getLast? = some x then predIn l x else l.getLast? := by
  rw [← List.head?_reverse, reverse_erase hnd,
    head?_erase (List.nodup_reverse.mpr hnd) (List.mem_reverse.mpr hx), List.head?_reverse,
    predIn]

end Lists

/-- The maps `next` and `prev` with the ends `head` and `tail` encode `l`. -/
structure Represents (next prev : α → Option α) (head tail : Option α) (l : List α) : Prop where
  nodup : l.Nodup
  head_eq : head = l.head?
  tail_eq : tail = l.getLast?
  next_of_mem : ∀ x ∈ l, next x = succIn l x
  prev_of_mem : ∀ x ∈ l, prev x = predIn l x
  unlinked : ∀ x ∉ l, next x = none ∧ prev x = none

namespace Represents

variable {next prev : α → Option α} {head tail : Option α} {l : List α} {x y : α}

lemma next_eq (h : Represents next prev head tail l) (x : α) : next x = succIn l x := by
  by_cases hx : x ∈ l
  · exact h.next_of_mem x hx
  · rw [(h.unlinked x hx).1, succIn_of_not_mem hx]

lemma prev_eq (h : Represents next prev head tail l) (x : α) : prev x = predIn l x := by
  by_cases hx : x ∈ l
  · exact h.prev_of_mem x hx
  · rw [(h.unlinked x hx).2, predIn_of_not_mem hx]

lemma prev_eq_some_iff (h : Represents next prev head tail l) :
    prev x = some y ↔ next y = some x := by
  rw [h.prev_eq, h.next_eq, predIn_eq_some_iff h.nodup]

lemma next_eq_none_iff (h : Represents next prev head tail l) (hx : x ∈ l) :
    next x = none ↔ tail = some x := by
  rw [h.next_eq, h.tail_eq, succIn_eq_none_iff h.nodup hx]

lemma prev_eq_none_iff (h : Represents next prev head tail l) (hx : x ∈ l) :
    prev x = none ↔ head = some x := by
  rw [h.prev_eq, h.head_eq, predIn_eq_none_iff h.nodup hx]

lemma next_ne_self (h : Represents next prev head tail l) (x : α) : next x ≠ some x := by
  rw [h.next_eq]
  exact succIn_ne_self h.nodup

lemma prev_ne_self (h : Represents next prev head tail l) (x : α) : prev x ≠ some x := by
  rw [h.prev_eq]
  exact succIn_ne_self (List.nodup_reverse.mpr h.nodup)

lemma prev_ne_next (h : Represents next prev head tail l) (hp : prev x = some y) :
    next x ≠ some y := by
  have hy : next y = some x := h.prev_eq_some_iff.mp hp
  rw [h.next_eq] at hy ⊢
  exact fun hn => succIn_succIn_ne h.nodup hn hy

lemma isLinked_iff (h : Represents next prev head tail l) (hx : x ∈ l) :
    ((next x).isSome || (prev x).isSome) = true ↔ l ≠ [x] := by
  constructor
  · rintro hl rfl
    have hn : next x = none := (h.next_eq_none_iff hx).mpr (by rw [h.tail_eq]; rfl)
    have hp : prev x = none := (h.prev_eq_none_iff hx).mpr (by rw [h.head_eq]; rfl)
    simp [hn, hp] at hl
  · intro hl
    by_contra hn
    simp only [Bool.or_eq_true, Option.isSome_iff_ne_none, not_or, not_not] at hn
    rw [h.next_eq_none_iff hx, h.tail_eq] at hn
    rw [h.prev_eq_none_iff hx, h.head_eq] at hn
    exact hl (eq_singleton_of_head?_of_getLast? h.nodup hn.2 hn.1)

lemma mem_iff (h : Represents next prev head tail l) (x : α) :
    x ∈ l ↔ ((next x).isSome || (prev x).isSome) = true ∨ head = some x := by
  constructor
  · intro hx
    by_cases hl : l = [x]
    · right
      rw [h.head_eq, hl]
      rfl
    · exact Or.inl ((h.isLinked_iff hx).mpr hl)
  · rintro (hl | hh)
    · by_contra hx
      simp [(h.unlinked x hx).1, (h.unlinked x hx).2] at hl
    · rw [h.head_eq] at hh
      exact List.mem_of_mem_head? hh

lemma follow (h : Represents next prev head tail l) {fuel : ℕ} (hf : l.length < fuel) :
    Walk.follow next fuel head = some l := by
  have key : ∀ (s p : List α) (fuel : ℕ), l = p ++ s → s.length < fuel →
      Walk.follow next fuel s.head? = some s := by
    intro s
    induction s with
    | nil =>
      intro p fuel _ hf
      obtain ⟨k, rfl⟩ : ∃ k, fuel = k + 1 := ⟨fuel - 1, by simp at hf; omega⟩
      rfl
    | cons y s ih =>
      intro p fuel hl hf
      obtain ⟨k, rfl⟩ : ∃ k, fuel = k + 1 := ⟨fuel - 1, by simp at hf; omega⟩
      have hyp : y ∉ p := by
        have := h.nodup
        rw [hl, List.nodup_append] at this
        exact fun hy => this.2.2 y hy y List.mem_cons_self rfl
      have hnext : next y = s.head? := by rw [h.next_eq, hl, succIn_append_cons p s hyp]
      rw [List.head?_cons, Walk.follow_some, hnext,
        ih (p ++ [y]) k (by simp [hl]) (by simpa using hf)]
      rfl
  rw [h.head_eq]
  exact key l [] fuel rfl hf

lemma append (h : Represents next prev head tail l) (hx : x ∉ l) {next' prev' : α → Option α}
    (hn : ∀ y, next' y = if tail = some y then some x else next y)
    (hp : ∀ y, prev' y = if y = x then tail else prev y) :
    Represents next' prev' (if tail = none then some x else head) (some x) (l ++ [x]) where
  nodup := by
    rw [List.nodup_append]
    exact ⟨h.nodup, List.nodup_singleton x, fun a ha b hb => by
      rw [List.mem_singleton] at hb
      exact fun hab => hx (hb ▸ hab ▸ ha)⟩
  head_eq := by
    rw [h.tail_eq, h.head_eq, List.head?_append]
    cases l with
    | nil => rfl
    | cons a t => simp
  tail_eq := List.getLast?_concat.symm
  next_of_mem y _ := by rw [hn, h.tail_eq, h.next_eq, succIn_append_singleton h.nodup hx]
  prev_of_mem y _ := by rw [hp, h.tail_eq, h.prev_eq, predIn_append_singleton]
  unlinked y hy := by
    have hyl : y ∉ l := fun h' => hy (List.mem_append_left _ h')
    have hyx : y ≠ x := fun h' => hy (List.mem_append_right _ (List.mem_singleton.mpr h'))
    have htail : tail ≠ some y := fun h' => hyl (List.mem_of_getLast? (h.tail_eq ▸ h'))
    rw [hn, hp, if_neg htail, if_neg hyx]
    exact h.unlinked y hyl

lemma erase (h : Represents next prev head tail l) (hx : x ∈ l) {next' prev' : α → Option α}
    (hn : ∀ y, next' y = if y = x then none else if prev x = some y then next x else next y)
    (hp : ∀ y, prev' y = if y = x then none else if next x = some y then prev x else prev y) :
    Represents next' prev' (if prev x = none then next x else head)
      (if next x = none then prev x else tail) (l.erase x) where
  nodup := h.nodup.erase x
  head_eq := by
    rw [head?_erase h.nodup hx, ← h.head_eq, ← h.next_eq]
    by_cases hh : head = some x
    · rw [if_pos ((h.prev_eq_none_iff hx).mpr hh), if_pos hh]
    · rw [if_neg (mt (h.prev_eq_none_iff hx).mp hh), if_neg hh]
  tail_eq := by
    rw [getLast?_erase h.nodup hx, ← h.tail_eq, ← h.prev_eq]
    by_cases ht : tail = some x
    · rw [if_pos ((h.next_eq_none_iff hx).mpr ht), if_pos ht]
    · rw [if_neg (mt (h.next_eq_none_iff hx).mp ht), if_neg ht]
  next_of_mem y hy := by
    have hyx : y ≠ x := fun h' => h.nodup.not_mem_erase (h' ▸ hy)
    rw [hn, if_neg hyx, succIn_erase h.nodup hx hyx, ← h.next_eq, ← h.next_eq]
    by_cases hpx : prev x = some y
    · rw [if_pos hpx, if_pos (h.prev_eq_some_iff.mp hpx)]
    · rw [if_neg hpx, if_neg (mt h.prev_eq_some_iff.mpr hpx)]
  prev_of_mem y hy := by
    have hyx : y ≠ x := fun h' => h.nodup.not_mem_erase (h' ▸ hy)
    rw [hp, if_neg hyx, predIn_erase h.nodup hx hyx, ← h.prev_eq, ← h.prev_eq]
    by_cases hnx : next x = some y
    · rw [if_pos hnx, if_pos (h.prev_eq_some_iff.mpr hnx)]
    · rw [if_neg hnx, if_neg (mt h.prev_eq_some_iff.mp hnx)]
  unlinked y hy := by
    by_cases hyx : y = x
    · rw [hn, hp, if_pos hyx, if_pos hyx]
      exact ⟨rfl, rfl⟩
    · have hyl : y ∉ l := fun h' => hy ((h.nodup.mem_erase_iff).mpr ⟨hyx, h'⟩)
      have hpx : prev x ≠ some y := fun h' =>
        hyl (mem_of_predIn (h.prev_eq x ▸ h')).2
      have hnx : next x ≠ some y := fun h' =>
        hyl (mem_of_succIn (h.next_eq x ▸ h')).2
      rw [hn, hp, if_neg hyx, if_neg hyx, if_neg hpx, if_neg hnx]
      exact h.unlinked y hyl

end Represents

lemma modify_eq_map_of_nodup {β : Type} {key : β → α} (f : β → β) {x : α} :
    ∀ {L : List β} {i : ℕ}, (L.map key).Nodup → L[i]?.map key = some x →
      L.modify i f = L.map fun y => if key y = x then f y else y
  | [], _, _, h => by simp at h
  | y :: L, 0, hnd, h => by
    have hy : key y = x := by simpa using h
    have hL : ∀ z ∈ L, key z ≠ x := fun z hz hzx =>
      (List.nodup_cons.mp hnd).1 (hy ▸ hzx ▸ List.mem_map_of_mem hz)
    rw [List.modify_zero_cons, List.map_cons, if_pos hy, List.map_congr_left
      (fun z hz => if_neg (hL z hz)), List.map_id']
  | y :: L, i + 1, hnd, h => by
    have hx : x ∈ L.map key := by
      obtain ⟨z, hz, hzx⟩ := Option.map_eq_some_iff.mp (by simpa using h)
      exact hzx ▸ List.mem_map_of_mem (List.mem_of_getElem? hz)
    have hy : key y ≠ x := fun hyx => (List.nodup_cons.mp (by simpa using hnd)).1 (hyx ▸ hx)
    rw [List.modify_succ_cons, List.map_cons, if_neg hy,
      modify_eq_map_of_nodup f (List.nodup_cons.mp (by simpa using hnd)).2 (by simpa using h)]

lemma map_modify_of_forall {β γ : Type} {g : β → γ} {f : β → β} (hf : ∀ y, g (f y) = g y) :
    ∀ (L : List β) (i : ℕ), (L.modify i f).map g = L.map g
  | [], _ => by simp
  | y :: L, 0 => by simp [hf]
  | y :: L, i + 1 => by simp [map_modify_of_forall hf L i]

end LinkedList
