import Mathlib

/-! A least-recently-used cache of a fixed size, as `simplelru.LRU` keeps it: its entries from the
most recently used to the least. `Get` moves a key it finds to the front; `Add` puts the key's
value at the front, and past the size the least recent entry leaves. Neither makes up an entry,
so what holds of every entry added holds of every entry the cache ever has. -/

namespace Lru

variable {K V : Type} [DecidableEq K]

/-- `Get`: the key's value, its entry moved to the front. -/
def get (c : List (K × V)) (key : K) : Option V × List (K × V) :=
  match c.find? (·.1 = key) with
  | some e => (some e.2, e :: c.filter (·.1 ≠ key))
  | none => (none, c)

/-- `Add`: the key's value at the front; past the size the least recent entry leaves. -/
def add (size : ℕ) (c : List (K × V)) (key : K) (value : V) : List (K × V) :=
  ((key, value) :: c.filter (·.1 ≠ key)).take size

variable {c : List (K × V)} {key : K}

lemma get_some {v : V} (h : (get c key).1 = some v) : (key, v) ∈ c := by
  unfold get at h
  split at h
  · next e he =>
    obtain rfl := Option.some.inj h
    have hkey : e.1 = key := by simpa using List.find?_some he
    rw [← hkey]
    exact List.mem_of_find?_eq_some he
  · cases h

lemma mem_get {e : K × V} (h : e ∈ (get c key).2) : e ∈ c := by
  unfold get at h
  split at h
  · next e' he =>
    rcases List.mem_cons.mp h with rfl | hmem
    · exact List.mem_of_find?_eq_some he
    · exact List.mem_of_mem_filter hmem
  · exact h

lemma mem_add {size : ℕ} {value : V} {e : K × V} (h : e ∈ add size c key value) :
    e = (key, value) ∨ e ∈ c := by
  rcases List.mem_cons.mp (List.mem_of_mem_take h) with rfl | hmem
  · exact .inl rfl
  · exact .inr (List.mem_of_mem_filter hmem)

end Lru
