import Mathlib

/-! Write logs. A log is the list of `(key, value)` writes in the order they were made; a
key's value is the one of its last write. A finite map kept beside a log agrees with it when
each key's entry is that last write. -/

namespace WriteLog

variable {α β : Type} [DecidableEq α]

def step (a : α) (acc : Option β) (p : α × β) : Option β :=
  if p.1 = a then some p.2 else acc

def lastWrite (l : List (α × β)) (a : α) : Option β :=
  l.foldl (step a) none

lemma foldl_step (l : List (α × β)) (a : α) (acc : Option β) :
    l.foldl (step a) acc = (lastWrite l a).or acc := by
  induction l generalizing acc with
  | nil => simp [lastWrite]
  | cons p l ih =>
    simp only [List.foldl_cons, lastWrite]
    rw [ih, ih (step a none p)]
    by_cases hp : p.1 = a <;> simp [step, hp]

@[simp] lemma lastWrite_nil (a : α) : lastWrite ([] : List (α × β)) a = none := rfl

lemma lastWrite_append (l₁ l₂ : List (α × β)) (a : α) :
    lastWrite (l₁ ++ l₂) a = (lastWrite l₂ a).or (lastWrite l₁ a) := by
  simp only [lastWrite, List.foldl_append]
  exact foldl_step l₂ a _

@[simp] lemma lastWrite_concat (l : List (α × β)) (k a : α) (v : β) :
    lastWrite (l ++ [(k, v)]) a = if k = a then some v else lastWrite l a := by
  rw [lastWrite_append]
  by_cases hk : k = a <;> simp [lastWrite, step, hk]

lemma lastWrite_cons (p : α × β) (l : List (α × β)) (a : α) :
    lastWrite (p :: l) a = (lastWrite l a).or (if p.1 = a then some p.2 else none) := by
  rw [← List.singleton_append, lastWrite_append]
  by_cases hp : p.1 = a <;> simp [lastWrite, step, hp]

lemma lastWrite_eq_none_iff (l : List (α × β)) (a : α) :
    lastWrite l a = none ↔ ∀ p ∈ l, p.1 ≠ a := by
  induction l using List.reverseRecOn with
  | nil => simp
  | append_singleton l p ih =>
    obtain ⟨k, v⟩ := p
    rw [lastWrite_concat]
    by_cases hk : k = a
    · simp [hk]
    · rw [if_neg hk, ih]
      simp only [List.mem_append, List.mem_singleton]
      constructor
      · rintro h p (hp | rfl)
        · exact h p hp
        · exact hk
      · intro h p hp
        exact h p (Or.inl hp)

lemma lastWrite_flatten_of_none (L M : List (List (α × β))) (a : α)
    (h : ∀ l ∈ M, lastWrite l a = none) :
    lastWrite (L ++ M).flatten a = lastWrite L.flatten a := by
  have hM : lastWrite M.flatten a = none := by
    rw [lastWrite_eq_none_iff]
    intro p hp
    obtain ⟨l, hl, hpl⟩ := List.mem_flatten.mp hp
    exact (lastWrite_eq_none_iff l a).mp (h l hl) p hpl
  rw [List.flatten_append, lastWrite_append, hM, Option.none_or]

lemma mem_of_lastWrite_eq_some {l : List (α × β)} {a : α} {b : β} (h : lastWrite l a = some b) :
    (a, b) ∈ l := by
  induction l using List.reverseRecOn with
  | nil => simp at h
  | append_singleton l p ih =>
    obtain ⟨k, v⟩ := p
    rw [lastWrite_concat] at h
    by_cases hk : k = a
    · rw [if_pos hk] at h
      cases h
      subst hk
      simp
    · rw [if_neg hk] at h
      exact List.mem_append_left _ (ih h)

lemma lastWrite_ne_none_of_mem {l : List (α × β)} {a : α} {b : β} (h : (a, b) ∈ l) :
    lastWrite l a ≠ none := by
  rw [Ne, lastWrite_eq_none_iff]
  intro hl
  exact hl _ h rfl

lemma foldl_update_apply (l : List (α × β)) (f : α → β) (a : α) :
    l.foldl (fun g p => Function.update g p.1 p.2) f a = (lastWrite l a).getD (f a) := by
  induction l using List.reverseRecOn with
  | nil => rfl
  | append_singleton l p ih =>
    obtain ⟨k, v⟩ := p
    rw [List.foldl_append, List.foldl_cons, List.foldl_nil, lastWrite_concat]
    by_cases hk : k = a
    · subst hk
      simp
    · rw [Function.update_of_ne (Ne.symm hk), ih, if_neg hk]

/-- A finite map that records the last write of each key of a log. -/
def Tracks (m : AList (fun _ : α => β)) (l : List (α × β)) : Prop :=
  ∀ a, m.lookup a = lastWrite l a

lemma tracks_empty : Tracks (∅ : AList (fun _ : α => β)) [] := by
  intro a
  simp [AList.lookup_empty]

lemma Tracks.insert {m : AList (fun _ : α => β)} {l : List (α × β)} (h : Tracks m l)
    (k : α) (v : β) : Tracks (m.insert k v) (l ++ [(k, v)]) := by
  intro a
  by_cases hk : k = a
  · subst hk
    simp [AList.lookup_insert]
  · rw [AList.lookup_insert_ne (Ne.symm hk), lastWrite_concat, if_neg hk, h a]

lemma Tracks.mem_iff {m : AList (fun _ : α => β)} {l : List (α × β)} (h : Tracks m l) (a : α) :
    a ∈ m ↔ lastWrite l a ≠ none := by
  rw [← h a, ← AList.lookup_isSome, Option.isSome_iff_ne_none]

end WriteLog
