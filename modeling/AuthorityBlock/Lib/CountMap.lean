import Mathlib

/-! A map of counts kept the way Go code keeps one: `m[k]++` counts a key in, and a key
whose count would fall to zero is deleted rather than set to zero. `Counts m s` says that
the map holds the multiplicity of every key of the multiset `s`, and no zero entry.

The multiset of the values of an association list is what such a counter is compared
against; it is described here after a fresh insert and after erasing a present key. -/

namespace CountMap

section Values

variable {κ ν : Type*} [DecidableEq κ]

/-- The values of an association list, with their multiplicities. -/
def values (s : AList fun _ : κ => ν) : Multiset ν := (s.entries.map Sigma.snd : List ν)

omit [DecidableEq κ] in
@[simp]
lemma values_empty : values (∅ : AList fun _ : κ => ν) = 0 := rfl

lemma values_insert_of_lookup_eq_none {s : AList fun _ : κ => ν} {k : κ} (v : ν)
    (h : s.lookup k = none) : values (s.insert k v) = v ::ₘ values s := by
  rw [values, AList.entries_insert_of_notMem (AList.lookup_eq_none.mp h)]
  rfl

lemma cons_values_erase {s : AList fun _ : κ => ν} {k : κ} {v : ν} (h : s.lookup k = some v) :
    v ::ₘ values (s.erase k) = values s := by
  have hk : k ∈ s.entries.keys := AList.lookup_isSome.mp (by simp [h])
  obtain ⟨b, l₁, l₂, -, hl, he⟩ := List.exists_of_kerase hk
  -- the entry the erase drops is the one the lookup found
  have hb : b = v := by
    have hmem : b ∈ s.lookup k := AList.mem_lookup_iff.mpr (by simp [hl])
    rw [h] at hmem
    exact (Option.some_inj.mp hmem).symm
  have herase : (s.erase k).entries = l₁ ++ l₂ := he
  rw [values, values, herase, hl, hb, Multiset.cons_coe, Multiset.coe_eq_coe]
  simpa using List.perm_middle.symm

end Values

variable {α : Type*} [DecidableEq α]

/-- Reading a count: Go's zero value for an absent key. -/
def get (m : AList fun _ : α => ℕ) (k : α) : ℕ := (m.lookup k).getD 0

/-- `m[k]++`. -/
def incr (m : AList fun _ : α => ℕ) (k : α) : AList fun _ : α => ℕ := m.insert k (get m k + 1)

/-- `if m[k] > 1 { m[k]-- } else { delete(m, k) }`. -/
def decr (m : AList fun _ : α => ℕ) (k : α) : AList fun _ : α => ℕ :=
  if get m k > 1 then m.insert k (get m k - 1) else m.erase k

/-- `m` counts the keys of `s`: an absent key is one `s` does not hold, and no entry is zero. -/
def Counts (m : AList fun _ : α => ℕ) (s : Multiset α) : Prop :=
  ∀ k, m.lookup k = if s.count k = 0 then none else some (s.count k)

variable {m : AList fun _ : α => ℕ} {s : Multiset α}

lemma Counts.get_eq (h : Counts m s) (k : α) : get m k = s.count k := by
  rw [get, h k]
  by_cases hk : s.count k = 0 <;> simp [hk]

lemma Counts.lookup_ne_zero (h : Counts m s) (k : α) : m.lookup k ≠ some 0 := by
  rw [h k]
  by_cases hk : s.count k = 0 <;> simp [hk]

lemma counts_empty : Counts (∅ : AList fun _ : α => ℕ) 0 := fun k => by simp

lemma Counts.incr (h : Counts m s) (k : α) : Counts (incr m k) (k ::ₘ s) := by
  intro k'
  by_cases hk : k' = k
  · subst hk
    rw [CountMap.incr, AList.lookup_insert, h.get_eq, Multiset.count_cons_self]
    simp
  · rw [CountMap.incr, AList.lookup_insert_ne hk, h k', Multiset.count_cons_of_ne hk]

lemma Counts.decr (h : Counts m s) {k : α} (hk : k ∈ s) : Counts (decr m k) (s.erase k) := by
  intro k'
  by_cases hk' : k' = k
  · subst hk'
    have hpos := Multiset.count_pos.mpr hk
    rw [Multiset.count_erase_self, CountMap.decr, h.get_eq]
    by_cases h1 : s.count k' > 1
    · rw [if_pos h1, AList.lookup_insert, if_neg (by omega)]
    · rw [if_neg h1, AList.lookup_erase, if_pos (by omega)]
  · rw [Multiset.count_erase_of_ne hk', CountMap.decr]
    split
    · rw [AList.lookup_insert_ne hk', h k']
    · rw [AList.lookup_erase_ne hk', h k']

end CountMap
