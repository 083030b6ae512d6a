import Mathlib

/-! Go's `container/heap`: `up`, `down`, `Push`, `Pop`, `Remove` and `Fix` over a
`heap.Interface`, here a state with its length, its order of positions and its swap. The
caller's own `Push` and `Pop` stay with the caller.

Two kinds of results. Whatever a swap keeps, every operation keeps (`up_keeps`,
`downLoop_keeps`, `fixAt_keeps`). For an interface whose positions hold values of a linear order
(`Lawful`), the sifts restore the heap order from the states the operations start them in
(`up_ordered`, `downLoop_ordered`, `fixAt_ordered`), and the root holds a least value
(`root_least`). -/

namespace Heap

/-- `heap.Interface`, without the caller's `Push` and `Pop`. -/
structure Interface (σ : Type) where
  Len : σ → ℕ
  Less : σ → ℕ → ℕ → Bool
  Swap : σ → ℕ → ℕ → σ

def parent (j : ℕ) : ℕ := (j - 1) / 2

variable {σ : Type} (h : Interface σ)

/-- `up`. At the root Go's `(j - 1) / 2` is `j` itself, which stops the loop. -/
def up (s : σ) (j : ℕ) : σ :=
  if _hj : j = 0 then s
  else if h.Less s j (parent j) then up (h.Swap s (parent j) j) (parent j) else s
termination_by j
decreasing_by unfold parent; omega

/-- The child `down` compares with: the right one when it is in the heap and less. -/
def minChild (s : σ) (n i : ℕ) : ℕ :=
  if 2 * i + 2 < n ∧ h.Less s (2 * i + 2) (2 * i + 1) = true then 2 * i + 2 else 2 * i + 1

/-- The loop of `down`: the state and the position it stops at. -/
def downLoop (n : ℕ) (s : σ) (i : ℕ) : σ × ℕ :=
  if _hn : n ≤ 2 * i + 1 then (s, i)
  else if h.Less s (minChild h s n i) i then downLoop n (h.Swap s i (minChild h s n i)) (minChild h s n i)
  else (s, i)
termination_by n - i
decreasing_by unfold minChild; split <;> omega

/-- `down`: whether the element moved. -/
def down (s : σ) (i0 n : ℕ) : σ × Bool :=
  ((downLoop h n s i0).1, i0 < (downLoop h n s i0).2)

/-- `if !down(h, i, n) { up(h, i) }`, the tail of `Fix` and `Remove`. -/
def fixAt (s : σ) (i n : ℕ) : σ :=
  if (down h s i n).2 then (down h s i n).1 else up h (down h s i n).1 i

def Push (push : σ → σ) (s : σ) : σ := up h (push s) (h.Len (push s) - 1)

def Pop {β : Type} (pop : σ → σ × β) (s : σ) : σ × β :=
  pop (down h (h.Swap s 0 (h.Len s - 1)) 0 (h.Len s - 1)).1

def Remove {β : Type} (pop : σ → σ × β) (s : σ) (i : ℕ) : σ × β :=
  pop (if h.Len s - 1 ≠ i then fixAt h (h.Swap s i (h.Len s - 1)) i (h.Len s - 1) else s)

def Fix (s : σ) (i : ℕ) : σ := fixAt h s i (h.Len s)

lemma parent_lt {j : ℕ} (hj : j ≠ 0) : parent j < j := by
  unfold parent; omega

lemma child_cases {c i : ℕ} (hc : 0 < c) (hp : parent c = i) : c = 2 * i + 1 ∨ c = 2 * i + 2 := by
  unfold parent at hp; omega

lemma lt_minChild (s : σ) (n i : ℕ) : i < minChild h s n i := by
  unfold minChild; split <;> omega

lemma parent_minChild (s : σ) (n i : ℕ) : parent (minChild h s n i) = i := by
  unfold minChild parent; split <;> omega

lemma minChild_lt {s : σ} {n i : ℕ} (hn : 2 * i + 1 < n) : minChild h s n i < n := by
  unfold minChild; split <;> omega

/-! ### What every swap keeps -/

section Keeps

variable {S : σ → Prop}
  (hS : ∀ s i j, S s → i < h.Len s → j < h.Len s → S (h.Swap s i j) ∧ h.Len (h.Swap s i j) = h.Len s)

include hS

lemma up_keeps (s : σ) (j : ℕ) (hs : S s) (hj : j < h.Len s) :
    S (up h s j) ∧ h.Len (up h s j) = h.Len s := by
  fun_induction up h s j with
  | case1 s => exact ⟨hs, rfl⟩
  | case2 s j hj0 hless ih =>
    have hq := parent_lt hj0
    obtain ⟨hs', hlen⟩ := hS s (parent j) j hs (by omega) hj
    obtain ⟨hs'', hlen'⟩ := ih hs' (by omega)
    exact ⟨hs'', hlen'.trans hlen⟩
  | case3 s j hj0 hless => exact ⟨hs, rfl⟩

lemma downLoop_keeps (n : ℕ) (s : σ) (i : ℕ) (hs : S s) (hn : n ≤ h.Len s) :
    S (downLoop h n s i).1 ∧ h.Len (downLoop h n s i).1 = h.Len s := by
  fun_induction downLoop h n s i with
  | case1 s i hni => exact ⟨hs, rfl⟩
  | case2 s i hni hless ih =>
    have hc := minChild_lt h (s := s) (by omega : 2 * i + 1 < n)
    have hic := lt_minChild h s n i
    obtain ⟨hs', hlen⟩ := hS s i (minChild h s n i) hs (by omega) (by omega)
    obtain ⟨hs'', hlen'⟩ := ih hs' (by omega)
    exact ⟨hs'', hlen'.trans hlen⟩
  | case3 s i hni hless => exact ⟨hs, rfl⟩

lemma fixAt_keeps (s : σ) (i n : ℕ) (hs : S s) (hi : i < n) (hn : n ≤ h.Len s) :
    S (fixAt h s i n) ∧ h.Len (fixAt h s i n) = h.Len s := by
  obtain ⟨hs', hlen⟩ := downLoop_keeps h hS n s i hs hn
  unfold fixAt down
  split_ifs
  · exact ⟨hs', hlen⟩
  · obtain ⟨hs'', hlen'⟩ := up_keeps h hS _ i hs' (by omega)
    exact ⟨hs'', hlen'.trans hlen⟩

variable {β : Type} {view : σ → ℕ → β}
  (hview : ∀ s i j, S s → i < h.Len s → j < h.Len s → ∀ k, view (h.Swap s i j) k = view s (Equiv.swap i j k))

include hview

lemma up_view_of_lt (s : σ) (j : ℕ) (hs : S s) (hj : j < h.Len s) :
    ∀ k, j < k → view (up h s j) k = view s k := by
  fun_induction up h s j with
  | case1 s => intro _ _; rfl
  | case2 s j hj0 hless ih =>
    intro k hk
    have hq := parent_lt hj0
    obtain ⟨hs', hlen⟩ := hS s (parent j) j hs (by omega) hj
    rw [ih hs' (by omega) k (by omega), hview s _ _ hs (by omega) hj,
      Equiv.swap_apply_of_ne_of_ne (by omega) (by omega)]
  | case3 s j hj0 hless => intro _ _; rfl

lemma downLoop_view_of_le (n : ℕ) (s : σ) (i : ℕ) (hs : S s) (hn : n ≤ h.Len s) :
    ∀ k, n ≤ k → view (downLoop h n s i).1 k = view s k := by
  fun_induction downLoop h n s i with
  | case1 s i hni => intro _ _; rfl
  | case2 s i hni hless ih =>
    intro k hk
    have hc := minChild_lt h (s := s) (by omega : 2 * i + 1 < n)
    have hic := lt_minChild h s n i
    obtain ⟨hs', hlen⟩ := hS s i (minChild h s n i) hs (by omega) (by omega)
    rw [ih hs' (by omega) k hk, hview s _ _ hs (by omega) (by omega),
      Equiv.swap_apply_of_ne_of_ne (by omega) (by omega)]
  | case3 s i hni hless => intro _ _; rfl

lemma fixAt_view_of_le (s : σ) (i n : ℕ) (hs : S s) (hi : i < n) (hn : n ≤ h.Len s) :
    ∀ k, n ≤ k → view (fixAt h s i n) k = view s k := by
  intro k hk
  obtain ⟨hs', hlen⟩ := downLoop_keeps h hS n s i hs hn
  have hdown := downLoop_view_of_le h hS hview n s i hs hn k hk
  unfold fixAt down
  split_ifs
  · exact hdown
  · rw [up_view_of_lt h hS hview _ i hs' (by omega) k (by omega), hdown]

end Keeps

/-! ### The order -/

variable {P : Type} [LinearOrder P]

/-- An interface whose positions hold values of a linear order, on the states `S`, which swaps
keep: `Less` compares the values, and a swap exchanges two of them. -/
structure Lawful (S : σ → Prop) (elem : σ → ℕ → P) : Prop where
  swap : ∀ s i j, S s → i < h.Len s → j < h.Len s → S (h.Swap s i j) ∧ h.Len (h.Swap s i j) = h.Len s
  elem_swap : ∀ s i j, S s → i < h.Len s → j < h.Len s → ∀ k,
    elem (h.Swap s i j) k = elem s (Equiv.swap i j k)
  less : ∀ s i j, S s → i < h.Len s → j < h.Len s → (h.Less s i j = true ↔ elem s i < elem s j)

variable {h} {S : σ → Prop} {elem : σ → ℕ → P}

/-- The heap order on the first `n` positions. -/
def Ordered (elem : σ → ℕ → P) (s : σ) (n : ℕ) : Prop :=
  ∀ c, 0 < c → c < n → ¬ elem s c < elem s (parent c)

/-- Every parent and child pair that does not touch `hole` is in order. -/
def OrderedExcept (elem : σ → ℕ → P) (s : σ) (n hole : ℕ) : Prop :=
  ∀ c, 0 < c → c < n → c ≠ hole → parent c ≠ hole → ¬ elem s c < elem s (parent c)

/-- What `up` needs at `hole`: the pairs off the hole are in order, the hole's children are at
or after its parent, and the value at the hole is at or before them. -/
structure UpOrder (elem : σ → ℕ → P) (s : σ) (n hole : ℕ) : Prop where
  except : OrderedExcept elem s n hole
  grand : hole ≠ 0 → ∀ c, 0 < c → parent c = hole → c < n → ¬ elem s c < elem s (parent hole)
  below : ∀ c, 0 < c → parent c = hole → c < n → ¬ elem s c < elem s hole

/-- What `down` needs at `hole`: the pairs off the hole are in order, the value at the hole is at
or after its parent, and so are the hole's children. -/
structure DownOrder (elem : σ → ℕ → P) (s : σ) (n hole : ℕ) : Prop where
  except : OrderedExcept elem s n hole
  above : hole ≠ 0 → ¬ elem s hole < elem s (parent hole)
  grand : hole ≠ 0 → ∀ c, 0 < c → parent c = hole → c < n → ¬ elem s c < elem s (parent hole)

section Order

variable (hl : Lawful h S elem)

include hl in
lemma Lawful.elem_swap_left {s : σ} (hs : S s) {i j : ℕ} (hi : i < h.Len s) (hj : j < h.Len s) :
    elem (h.Swap s i j) i = elem s j := by
  rw [hl.elem_swap s i j hs hi hj, Equiv.swap_apply_left]

include hl in
lemma Lawful.elem_swap_right {s : σ} (hs : S s) {i j : ℕ} (hi : i < h.Len s) (hj : j < h.Len s) :
    elem (h.Swap s i j) j = elem s i := by
  rw [hl.elem_swap s i j hs hi hj, Equiv.swap_apply_right]

include hl in
lemma Lawful.elem_swap_of_ne {s : σ} (hs : S s) {i j k : ℕ} (hi : i < h.Len s) (hj : j < h.Len s)
    (hki : k ≠ i) (hkj : k ≠ j) : elem (h.Swap s i j) k = elem s k := by
  rw [hl.elem_swap s i j hs hi hj, Equiv.swap_apply_of_ne_of_ne hki hkj]

lemma root_least {s : σ} {n : ℕ} (ho : Ordered elem s n) : ∀ k, k < n → ¬ elem s k < elem s 0 := by
  intro k
  induction k using Nat.strongRecOn with
  | ind k ih =>
    intro hk
    by_cases hk0 : k = 0
    · subst hk0; exact lt_irrefl _
    · have hp := parent_lt hk0
      have h1 := ho k (by omega) hk
      have h2 := ih (parent k) hp (by omega)
      exact fun hlt => h2 (lt_of_le_of_lt (not_lt.mp h1) hlt)

lemma Ordered.upOrder {s : σ} {n : ℕ} (ho : Ordered elem s n) (j : ℕ) (hj : j < n) :
    UpOrder elem s n j where
  except := fun c hc0 hc _ _ => ho c hc0 hc
  grand := by
    intro hj0 c hc0 hpc hc
    have h1 := ho c hc0 hc
    have h2 := ho j (by omega) hj
    rw [hpc] at h1
    exact fun hlt => h2 (lt_of_le_of_lt (not_lt.mp h1) hlt)
  below := by
    intro c hc0 hpc hc
    have := ho c hc0 hc
    rwa [hpc] at this

lemma UpOrder.finish {s : σ} {n hole : ℕ} (o : UpOrder elem s n hole)
    (hstop : hole ≠ 0 → ¬ elem s hole < elem s (parent hole)) : Ordered elem s n := by
  intro c hc0 hc
  by_cases hch : c = hole
  · subst hch; exact hstop (by omega)
  · by_cases hph : parent c = hole
    · rw [hph]; exact o.below c hc0 hph hc
    · exact o.except c hc0 hc hch hph

include hl in
lemma UpOrder.swap {s : σ} {n hole : ℕ} (o : UpOrder elem s n hole) (hs : S s) (hn : n ≤ h.Len s)
    (hne : hole ≠ 0) (hlt : hole < n) (hb : elem s hole < elem s (parent hole)) :
    UpOrder elem (h.Swap s (parent hole) hole) n (parent hole) := by
  have hq : parent hole < hole := parent_lt hne
  have hqL : parent hole < h.Len s := by omega
  have hjL : hole < h.Len s := by omega
  -- the values after the swap
  have eq_q : elem (h.Swap s (parent hole) hole) (parent hole) = elem s hole :=
    hl.elem_swap_left hs hqL hjL
  have eq_j : elem (h.Swap s (parent hole) hole) hole = elem s (parent hole) :=
    hl.elem_swap_right hs hqL hjL
  have eq_o : ∀ k, k ≠ parent hole → k ≠ hole → elem (h.Swap s (parent hole) hole) k = elem s k :=
    fun k hkq hkj => hl.elem_swap_of_ne hs hqL hjL hkq hkj
  -- the parent's sibling pairs: every other child of the parent is at or after it
  have hsib : ∀ c, 0 < c → parent c = parent hole → c < n → c ≠ hole →
      ¬ elem s c < elem s (parent hole) := by
    intro c hc0 hpc hc hcj
    have := o.except c hc0 hc hcj (by omega)
    rwa [hpc] at this
  have hq_up : parent hole ≠ 0 → ¬ elem s (parent hole) < elem s (parent (parent hole)) :=
    fun hq0 => o.except (parent hole) (by omega) (by omega) (by omega)
      (by have := parent_lt hq0; omega)
  constructor
  · intro c hc0 hc hcq hpc
    by_cases hcj : c = hole
    · exact absurd (hcj ▸ rfl : parent c = parent hole) hpc
    rw [eq_o c hcq hcj]
    by_cases hph : parent c = hole
    · rw [hph, eq_j]
      exact o.grand hne c hc0 hph hc
    · rw [eq_o (parent c) hpc hph]
      exact o.except c hc0 hc hcj hph
  · intro hq0 c hc0 hpc hc
    have hpq : parent (parent hole) ≠ hole := by have := parent_lt hq0; omega
    have hpq' : parent (parent hole) ≠ parent hole := by have := parent_lt hq0; omega
    rw [eq_o _ hpq' hpq]
    by_cases hcj : c = hole
    · rw [hcj, eq_j]; exact hq_up hq0
    · rw [eq_o c (by have := parent_lt (show c ≠ 0 by omega); omega) hcj]
      exact fun hlt => hq_up hq0 (lt_of_le_of_lt (not_lt.mp (hsib c hc0 hpc hc hcj)) hlt)
  · intro c hc0 hpc hc
    rw [eq_q]
    by_cases hcj : c = hole
    · rw [hcj, eq_j]; exact not_lt.mpr hb.le
    · rw [eq_o c (by have := parent_lt (show c ≠ 0 by omega); omega) hcj]
      exact fun hlt => hsib c hc0 hpc hc hcj (lt_trans hlt hb)

include hl in
lemma up_ordered (s : σ) (j : ℕ) {n : ℕ} (hs : S s) (hn : n ≤ h.Len s) (hj : j < n)
    (o : UpOrder elem s n j) : Ordered elem (up h s j) n := by
  fun_induction up h s j with
  | case1 s =>
    exact o.finish (fun h0 => absurd rfl h0)
  | case2 s j hj0 hless ih =>
    have hq := parent_lt hj0
    have hb := (hl.less s j (parent j) hs (by omega) (by omega)).mp hless
    obtain ⟨hs', hlen⟩ := hl.swap s (parent j) j hs (by omega) (by omega)
    exact ih hs' (by omega) (by omega) (o.swap hl hs hn hj0 hj hb)
  | case3 s j hj0 hless =>
    refine o.finish (fun _ hlt => hless ?_)
    exact (hl.less s j (parent j) hs (by omega) (by have := parent_lt hj0; omega)).mpr hlt

lemma Ordered.except_of_agree {s s' : σ} {n i : ℕ} (ho : Ordered elem s n)
    (hagree : ∀ k, k < n → k ≠ i → elem s' k = elem s k) :
    OrderedExcept elem s' n i ∧
      (i ≠ 0 → ∀ c, 0 < c → parent c = i → c < n → ¬ elem s' c < elem s' (parent i)) := by
  constructor
  · intro c hc0 hc hci hpc
    rw [hagree c hc hci, hagree (parent c) (by have := parent_lt (show c ≠ 0 by omega); omega) hpc]
    exact ho c hc0 hc
  · intro hi0 c hc0 hpc hc
    have hic : i < c := by have := parent_lt (show c ≠ 0 by omega); omega
    have hq := parent_lt hi0
    rw [hagree c hc (by omega), hagree (parent i) (by omega) (by omega)]
    have h1 := ho c hc0 hc
    have h2 := ho i (by omega) (by omega)
    rw [hpc] at h1
    exact fun hlt => h2 (lt_of_le_of_lt (not_lt.mp h1) hlt)

lemma Ordered.of_agree {s s' : σ} {n : ℕ} (ho : Ordered elem s n)
    (hagree : ∀ k, k < n → elem s' k = elem s k) : Ordered elem s' n := by
  intro c hc0 hc
  rw [hagree c hc, hagree (parent c) (by have := parent_lt (show c ≠ 0 by omega); omega)]
  exact ho c hc0 hc

lemma Ordered.mono {s : σ} {n m : ℕ} (ho : Ordered elem s n) (hmn : m ≤ n) : Ordered elem s m :=
  fun c hc0 hc => ho c hc0 (by omega)

lemma Ordered.upOrder_push {s : σ} {n : ℕ} (ho : Ordered elem s n) : UpOrder elem s (n + 1) n where
  except := fun c hc0 hc hcn _ => ho c hc0 (by omega)
  grand := fun _ c hc0 hpc hc => absurd hc (by have := child_cases hc0 hpc; omega)
  below := fun c hc0 hpc hc => absurd hc (by have := child_cases hc0 hpc; omega)

include hl in
lemma minChild_least {s : σ} {n : ℕ} (hs : S s) (hn : n ≤ h.Len s) (i : ℕ) :
    ∀ c, 0 < c → parent c = i → c < n → ¬ elem s c < elem s (minChild h s n i) := by
  intro c hc0 hpc hc
  unfold minChild
  split_ifs with hm
  · rcases child_cases hc0 hpc with rfl | rfl
    · exact not_lt.mpr ((hl.less s _ _ hs (by omega) (by omega)).mp hm.2).le
    · exact lt_irrefl _
  · rcases child_cases hc0 hpc with rfl | rfl
    · exact lt_irrefl _
    · exact fun hlt => hm ⟨hc, (hl.less s _ _ hs (by omega) (by omega)).mpr hlt⟩

lemma DownOrder.finish {s : σ} {n hole : ℕ} (o : DownOrder elem s n hole)
    (hstop : ∀ c, 0 < c → parent c = hole → c < n → ¬ elem s c < elem s hole) : Ordered elem s n := by
  intro c hc0 hc
  by_cases hch : c = hole
  · subst hch; exact o.above (by omega)
  · by_cases hph : parent c = hole
    · rw [hph]; exact hstop c hc0 hph hc
    · exact o.except c hc0 hc hch hph

include hl in
lemma DownOrder.swap {s : σ} {n hole : ℕ} (o : DownOrder elem s n hole) (hs : S s) (hn : n ≤ h.Len s)
    (hin : 2 * hole + 1 < n) (hb : elem s (minChild h s n hole) < elem s hole) :
    DownOrder elem (h.Swap s hole (minChild h s n hole)) n (minChild h s n hole) := by
  have hmin := minChild_least hl hs hn hole
  have hcp := parent_minChild h s n hole
  have hic := lt_minChild h s n hole
  have hcn := minChild_lt h (s := s) hin
  generalize minChild h s n hole = c at hmin hcp hic hcn hb ⊢
  have hiL : hole < h.Len s := by omega
  have hcL : c < h.Len s := by omega
  have eq_i : elem (h.Swap s hole c) hole = elem s c := hl.elem_swap_left hs hiL hcL
  have eq_c : elem (h.Swap s hole c) c = elem s hole := hl.elem_swap_right hs hiL hcL
  have eq_o : ∀ k, k ≠ hole → k ≠ c → elem (h.Swap s hole c) k = elem s k :=
    fun k hki hkc => hl.elem_swap_of_ne hs hiL hcL hki hkc
  constructor
  · intro d hd0 hd hdc hpd
    by_cases hdi : d = hole
    · -- the pair above the old hole: its value is now the child's
      subst hdi
      have hp : parent d ≠ d := by have := parent_lt (show d ≠ 0 by omega); omega
      rw [eq_i, eq_o _ hp (by omega)]
      exact o.grand (by omega) c (by omega) hcp hcn
    rw [eq_o d hdi hdc]
    by_cases hph : parent d = hole
    · rw [hph, eq_i]; exact hmin d hd0 hph hd
    · rw [eq_o _ hph hpd]; exact o.except d hd0 hd hdi hph
  · intro _
    rw [hcp, eq_c, eq_i]; exact not_lt.mpr hb.le
  · intro _ d hd0 hpd hd
    have hdgt : c < d := by have := parent_lt (show d ≠ 0 by omega); omega
    rw [hcp, eq_i, eq_o d (by omega) (by omega)]
    have := o.except d hd0 hd (by omega) (by omega)
    rwa [hpd] at this

include hl in
lemma downLoop_ordered (n : ℕ) (s : σ) (i : ℕ) (hs : S s) (hn : n ≤ h.Len s)
    (o : DownOrder elem s n i) : Ordered elem (downLoop h n s i).1 n := by
  fun_induction downLoop h n s i with
  | case1 s i hni =>
    exact o.finish (fun c hc0 hpc hc => absurd hc (by have := child_cases hc0 hpc; omega))
  | case2 s i hni hless ih =>
    have hin : 2 * i + 1 < n := by omega
    have hb := (hl.less s _ i hs (by have := minChild_lt h (s := s) hin; omega) (by omega)).mp hless
    obtain ⟨hs', hlen⟩ := hl.swap s i (minChild h s n i) hs (by omega)
      (by have := minChild_lt h (s := s) hin; omega)
    exact ih hs' (by omega) (o.swap hl hs hn hin hb)
  | case3 s i hni hless =>
    have hin : 2 * i + 1 < n := by omega
    have hmin := minChild_least hl hs hn i
    refine o.finish (fun c hc0 hpc hc hlt => hless ?_)
    apply (hl.less s _ i hs (by have := minChild_lt h (s := s) hin; omega) (by omega)).mpr
    exact lt_of_le_of_lt (not_lt.mp (hmin c hc0 hpc hc)) hlt

include hl in
lemma fixAt_ordered (s : σ) {i n : ℕ} (hs : S s) (hn : n ≤ h.Len s) (hi : i < n)
    (hex : OrderedExcept elem s n i)
    (hgrand : i ≠ 0 → ∀ c, 0 < c → parent c = i → c < n → ¬ elem s c < elem s (parent i)) :
    Ordered elem (fixAt h s i n) n := by
  -- `up` from the unmoved state, where every child of `i` is at or after it
  have hup : (∀ c, 0 < c → parent c = i → c < n → ¬ elem s c < elem s i) →
      Ordered elem (up h s i) n := fun hbelow =>
    up_ordered hl s i hs hn hi ⟨hex, hgrand, hbelow⟩
  -- from any heap the tail is a heap
  have htail : ∀ t, S t → n ≤ h.Len t → Ordered elem t n →
      Ordered elem (if i < (downLoop h n s i).2 then t else up h t i) n := by
    intro t ht htn hot
    split_ifs
    · exact hot
    · exact up_ordered hl t i ht htn hi (hot.upOrder i hi)
  have hfix : fixAt h s i n =
      if i < (downLoop h n s i).2 then (downLoop h n s i).1 else up h (downLoop h n s i).1 i := by
    simp only [fixAt, down, decide_eq_true_eq]
  rw [hfix]
  by_cases hin : n ≤ 2 * i + 1
  · -- no child in the heap: `down` stays
    rw [downLoop, dif_pos hin, if_neg (Nat.lt_irrefl i)]
    exact hup (fun c hc0 hpc hc => absurd hc (by have := child_cases hc0 hpc; omega))
  have hin' : 2 * i + 1 < n := by omega
  have hcn := minChild_lt h (s := s) hin'
  by_cases hless : h.Less s (minChild h s n i) i = true
  · -- `down` moves, and its start is `DownOrder`: the value at `i` exceeds a child, which is
    -- at or after the parent
    have hb := (hl.less s _ i hs (by omega) (by omega)).mp hless
    have o : DownOrder elem s n i :=
      ⟨hex, fun hi0 hlt => hgrand hi0 _ (by have := lt_minChild h s n i; omega)
        (parent_minChild h s n i) hcn (lt_trans hb hlt), hgrand⟩
    obtain ⟨hs', hlen'⟩ := downLoop_keeps h hl.swap n s i hs hn
    exact htail _ hs' (by omega) (downLoop_ordered hl n s i hs hn o)
  · rw [downLoop, dif_neg hin, if_neg hless, if_neg (Nat.lt_irrefl i)]
    have hmin := minChild_least hl hs hn i
    refine hup (fun c hc0 hpc hc hlt => hless ?_)
    apply (hl.less s _ i hs (by omega) (by omega)).mpr
    exact lt_of_le_of_lt (not_lt.mp (hmin c hc0 hpc hc)) hlt

end Order

end Heap
