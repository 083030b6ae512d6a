import Mathlib

/-! Walks along a `next` pointer with a bound on the number of steps, and loops that keep
the elements satisfying a test until a cap is reached. -/

namespace Walk

variable {α β : Type}

/-- The nodes from `p` on, following `next` until it ends, or `none` if it has not ended
within `fuel` steps. -/
def follow (next : α → Option α) : ℕ → Option α → Option (List α)
  | 0, _ => none
  | _ + 1, none => some []
  | fuel + 1, some a => (follow next fuel (next a)).map (a :: ·)

@[simp] lemma follow_none {next : α → Option α} {fuel : ℕ} :
    follow next (fuel + 1) none = some [] := rfl

lemma follow_some {next : α → Option α} {fuel : ℕ} {a : α} :
    follow next (fuel + 1) (some a) = (follow next fuel (next a)).map (a :: ·) := rfl

lemma follow_succ_of_some {next : α → Option α} {fuel : ℕ} {a : α} {l : List α}
    (h : follow next (fuel + 1) (some a) = some l) :
    ∃ l', follow next fuel (next a) = some l' ∧ l = a :: l' := by
  rw [follow_some, Option.map_eq_some_iff] at h
  obtain ⟨l', hl', rfl⟩ := h
  exact ⟨l', hl', rfl⟩

lemma follow_of_le {next : α → Option α} :
    ∀ {fuel fuel' : ℕ} {p : Option α} {l : List α}, fuel ≤ fuel' →
      follow next fuel p = some l → follow next fuel' p = some l
  | 0, _, _, _, _, h => by simp [follow] at h
  | _ + 1, 0, _, _, hle, _ => absurd hle (by omega)
  | _ + 1, _ + 1, none, _, _, h => h
  | _ + 1, _ + 1, some a, _, hle, h => by
    obtain ⟨l', hl', rfl⟩ := follow_succ_of_some h
    rw [follow_some, follow_of_le (by omega) hl']
    rfl

/-- A step of a loop that keeps `f` of the elements satisfying `p` until `cap` are kept. -/
def keep (p : α → Bool) (f : α → β) (cap : ℕ) (acc : List β) (a : α) : List β :=
  if acc.length < cap ∧ p a then acc ++ [f a] else acc

lemma foldl_keep (p : α → Bool) (f : α → β) (cap : ℕ) :
    ∀ (l : List α) (acc : List β), acc.length ≤ cap →
      l.foldl (keep p f cap) acc = acc ++ ((l.filter p).map f).take (cap - acc.length)
  | [], acc, _ => by simp
  | a :: l, acc, hacc => by
    rw [List.foldl_cons]
    by_cases hp : p a
    · by_cases hlt : acc.length < cap
      · have hk : keep p f cap acc a = acc ++ [f a] := if_pos ⟨hlt, hp⟩
        rw [hk, foldl_keep p f cap l _ (by simp; omega), List.filter_cons_of_pos hp]
        obtain ⟨n, hn⟩ : ∃ n, cap - acc.length = n + 1 := ⟨cap - acc.length - 1, by omega⟩
        rw [hn, List.map_cons, List.take_succ_cons, List.length_append, List.length_singleton,
          show cap - (acc.length + 1) = n by omega, List.append_assoc, List.singleton_append]
      · have hk : keep p f cap acc a = acc := if_neg fun h => hlt h.1
        rw [hk, foldl_keep p f cap l acc hacc, show cap - acc.length = 0 by omega]
        simp
    · have hk : keep p f cap acc a = acc := if_neg fun h => by simp [hp] at h
      rw [hk, foldl_keep p f cap l acc hacc, List.filter_cons_of_neg (by simpa using hp)]

lemma foldl_keep_of_le (p : α → Bool) (f : α → β) {cap : ℕ} (l : List α) {acc : List β}
    (h : cap ≤ acc.length) : l.foldl (keep p f cap) acc = acc := by
  induction l generalizing acc with
  | nil => rfl
  | cons a l ih =>
    have hk : keep p f cap acc a = acc := if_neg fun h' => by omega
    rw [List.foldl_cons, hk, ih h]

end Walk
