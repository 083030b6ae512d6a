import Mathlib

/-! Go slices as lists: positions read with a default (`getD`), the swap of two positions,
appending and dropping the last element, with what they do to membership and to the absence of
duplicates, and the slice expressions `s[low:]` and `s[:high]` with their panics. -/

namespace Slice

/-- `h[i], h[j] = h[j], h[i]`. -/
def listSwap {α : Type} [Inhabited α] (l : List α) (i j : ℕ) : List α :=
  (l.set i (l.getD j default)).set j (l.getD i default)

@[simp] lemma length_listSwap {α : Type} [Inhabited α] (l : List α) (i j : ℕ) :
    (listSwap l i j).length = l.length := by
  simp [listSwap]

lemma getD_listSwap {α : Type} [Inhabited α] (l : List α) {i j : ℕ} (hi : i < l.length)
    (hj : j < l.length) (k : ℕ) (d : α) : (listSwap l i j).getD k d = l.getD (Equiv.swap i j k) d := by
  simp only [listSwap, List.getD_eq_getElem?_getD, List.getElem?_set]
  by_cases hkj : k = j
  · subst hkj
    simp [Equiv.swap_apply_right, hi, hj]
  by_cases hki : k = i
  · subst hki
    simp [Equiv.swap_apply_left, hi, hj, Ne.symm hkj]
  · simp [Equiv.swap_apply_of_ne_of_ne hki hkj, Ne.symm hki, Ne.symm hkj]

lemma swap_lt {i j k n : ℕ} (hi : i < n) (hj : j < n) (hk : k < n) : Equiv.swap i j k < n := by
  rw [Equiv.swap_apply_def]
  split_ifs <;> omega

lemma getD_of_lt {α : Type} {l : List α} {k : ℕ} (hk : k < l.length) (d : α) : l.getD k d = l[k] := by
  simp [List.getD_eq_getElem?_getD, hk]

lemma mem_iff_getD {α : Type} {l : List α} {x : α} (d : α) :
    x ∈ l ↔ ∃ k, k < l.length ∧ l.getD k d = x := by
  rw [List.mem_iff_getElem]
  constructor
  · rintro ⟨k, hk, rfl⟩
    exact ⟨k, hk, getD_of_lt hk d⟩
  · rintro ⟨k, hk, rfl⟩
    exact ⟨k, hk, (getD_of_lt hk d).symm⟩

lemma nodup_iff_getD {α : Type} {l : List α} (d : α) :
    l.Nodup ↔ ∀ a b, a < l.length → b < l.length → l.getD a d = l.getD b d → a = b := by
  rw [List.nodup_iff_injective_get]
  constructor
  · intro hinj a b ha hb hab
    rw [getD_of_lt ha, getD_of_lt hb] at hab
    exact Fin.ext_iff.mp (@hinj ⟨a, ha⟩ ⟨b, hb⟩ hab)
  · intro hinj a b hab
    exact Fin.ext (hinj a b a.2 b.2 (by rw [getD_of_lt a.2, getD_of_lt b.2]; exact hab))

lemma mem_listSwap {α : Type} [Inhabited α] {l : List α} {i j : ℕ} (hi : i < l.length)
    (hj : j < l.length) (x : α) : x ∈ listSwap l i j ↔ x ∈ l := by
  rw [mem_iff_getD default, mem_iff_getD default, length_listSwap]
  constructor
  · rintro ⟨k, hk, rfl⟩
    exact ⟨_, swap_lt hi hj hk, (getD_listSwap l hi hj k default).symm⟩
  · rintro ⟨k, hk, rfl⟩
    refine ⟨Equiv.swap i j k, swap_lt hi hj hk, ?_⟩
    rw [getD_listSwap l hi hj, Equiv.swap_apply_self]

lemma nodup_listSwap {α : Type} [Inhabited α] {l : List α} {i j : ℕ} (hi : i < l.length)
    (hj : j < l.length) (hnd : l.Nodup) : (listSwap l i j).Nodup := by
  rw [nodup_iff_getD default] at hnd ⊢
  intro a b ha hb hab
  rw [length_listSwap] at ha hb
  rw [getD_listSwap l hi hj, getD_listSwap l hi hj] at hab
  exact (Equiv.swap i j).injective (hnd _ _ (swap_lt hi hj ha) (swap_lt hi hj hb) hab)

lemma getD_append_of_lt {α : Type} {l : List α} {k : ℕ} (hk : k < l.length) (x d : α) :
    (l ++ [x]).getD k d = l.getD k d := by
  simp [List.getD_eq_getElem?_getD, List.getElem?_append_left hk]

lemma getD_append_length {α : Type} (l : List α) (x d : α) : (l ++ [x]).getD l.length d = x := by
  simp [List.getD_eq_getElem?_getD]

lemma getD_dropLast {α : Type} {l : List α} {k : ℕ} (hk : k < l.length - 1) (d : α) :
    l.dropLast.getD k d = l.getD k d := by
  rw [getD_of_lt (by simpa using hk), getD_of_lt (by omega), List.getElem_dropLast]

lemma mem_dropLast {α : Type} {l : List α} (hnd : l.Nodup) (hl : l ≠ []) (x d : α) :
    x ∈ l.dropLast ↔ x ∈ l ∧ x ≠ l.getD (l.length - 1) d := by
  have hlast : l.getD (l.length - 1) d = l.getLast hl := by
    rw [List.getLast_eq_getElem, getD_of_lt (by have := List.length_pos_iff.mpr hl; omega)]
  have happ := List.dropLast_append_getLast hl
  have hsep := (List.nodup_append.mp (happ.symm ▸ hnd)).2.2
  rw [hlast]
  constructor
  · intro hx
    exact ⟨(List.dropLast_sublist l).subset hx, hsep x hx _ List.mem_cons_self⟩
  · rintro ⟨hx, hne⟩
    rw [← happ, List.mem_append, List.mem_singleton] at hx
    exact hx.resolve_right hne

lemma nodup_dropLast {α : Type} {l : List α} (hnd : l.Nodup) : l.dropLast.Nodup :=
  hnd.sublist (List.dropLast_sublist l)

/-! ### Removal by moving the last element -/

lemma getD_set_last_dropLast {α : Type} (l : List α) (i : ℕ) {k : ℕ} (hk : k < l.length - 1)
    (d : α) : (l.set i (l.getD (l.length - 1) d)).dropLast.getD k d =
      if k = i then l.getD (l.length - 1) d else l.getD k d := by
  rw [getD_dropLast (by simpa using hk)]
  simp only [List.getD_eq_getElem?_getD, List.getElem?_set]
  by_cases hki : k = i
  · subst hki
    simp [show k < l.length by omega]
  · simp [Ne.symm hki, hki]

lemma mem_set_last_dropLast {α : Type} {l : List α} (hnd : l.Nodup) {i : ℕ} (hi : i < l.length)
    (x d : α) : x ∈ (l.set i (l.getD (l.length - 1) d)).dropLast ↔ x ∈ l ∧ x ≠ l.getD i d := by
  have hlen : (l.set i (l.getD (l.length - 1) d)).dropLast.length = l.length - 1 := by simp
  have hinj := (nodup_iff_getD d).mp hnd
  rw [mem_iff_getD d, hlen, mem_iff_getD d]
  constructor
  · rintro ⟨k, hk, rfl⟩
    rw [getD_set_last_dropLast l i hk d]
    split_ifs with hki
    · -- the last element, now at `i`, was at another position
      exact ⟨⟨_, by omega, rfl⟩, fun h => absurd (hinj _ _ (by omega) hi h) (by omega)⟩
    · exact ⟨⟨k, by omega, rfl⟩, fun h => hki (hinj _ _ (by omega) hi h)⟩
  · rintro ⟨⟨k, hk, rfl⟩, hne⟩
    have hki : k ≠ i := fun h => hne (h ▸ rfl)
    by_cases hkl : k < l.length - 1
    · exact ⟨k, hkl, by rw [getD_set_last_dropLast l i hkl d, if_neg hki]⟩
    · -- the last element: it now stands at `i`
      refine ⟨i, by omega, ?_⟩
      rw [getD_set_last_dropLast l i (by omega) d, if_pos rfl, show k = l.length - 1 by omega]

lemma nodup_set_last_dropLast {α : Type} {l : List α} (hnd : l.Nodup) {i : ℕ} (hi : i < l.length)
    (d : α) : (l.set i (l.getD (l.length - 1) d)).dropLast.Nodup := by
  have hinj := (nodup_iff_getD d).mp hnd
  rw [nodup_iff_getD d]
  intro a b ha hb hab
  simp only [List.length_dropLast, List.length_set] at ha hb
  rw [getD_set_last_dropLast l i ha d, getD_set_last_dropLast l i hb d] at hab
  split_ifs at hab with hai hbi hbi
  · exact hai.trans hbi.symm
  · exact absurd (hinj _ _ (by omega) (by omega) hab) (by omega)
  · exact absurd (hinj _ _ (by omega) (by omega) hab) (by omega)
  · exact hinj _ _ (by omega) (by omega) hab

/-! ### Slice expressions -/

/-- `s[low:]`, which panics unless `0 ≤ low ≤ len(s)`. -/
def sliceFrom {α : Type} (s : List α) (low : ℤ) : Option (List α) :=
  if 0 ≤ low ∧ low ≤ s.length then some (s.drop low.toNat) else none

/-- `s[:high]`, checked against the length: a capacity beyond it is not modelled. -/
def sliceTo {α : Type} (s : List α) (high : ℤ) : Option (List α) :=
  if 0 ≤ high ∧ high ≤ s.length then some (s.take high.toNat) else none

lemma sliceFrom_eq_some {α : Type} {s t : List α} {low : ℤ} :
    sliceFrom s low = some t ↔ 0 ≤ low ∧ low ≤ s.length ∧ s.drop low.toNat = t := by
  unfold sliceFrom
  split_ifs with h
  · simp [h.1, h.2]
  · simp only [false_iff, not_and]
    exact fun h0 hl => absurd ⟨h0, hl⟩ h

lemma sliceTo_eq_some {α : Type} {s t : List α} {high : ℤ} :
    sliceTo s high = some t ↔ 0 ≤ high ∧ high ≤ s.length ∧ s.take high.toNat = t := by
  unfold sliceTo
  split_ifs with h
  · simp [h.1, h.2]
  · simp only [false_iff, not_and]
    exact fun h0 hl => absurd ⟨h0, hl⟩ h

end Slice
