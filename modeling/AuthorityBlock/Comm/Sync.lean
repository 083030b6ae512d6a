import Mathlib

/-! The model of `findCommonAncestor` (`comm/sync.go`): the highest block number a peer shares
with the local best chain, found by probing back from the head at doubling distances and then
by binary search. `isOverlapped` asks the peer; it may fail. The loops run on fuel, one unit
per round and so at most one query per unit; `none` is the fuel running out. -/

namespace AuthorityBlock.Comm

variable {ε : Type} (isOverlapped : UInt32 → Except ε Bool)

def find : ℕ → UInt32 → UInt32 → UInt32 → Except ε (Option UInt32)
  | 0, _, _, _ => pure none
  | fuel + 1, start, endNum, ancestor =>
    if start = endNum then do
      let overlapped ← isOverlapped start
      if overlapped then return some start
      return some ancestor
    else do
      let mid := (start + endNum) / 2
      let overlapped ← isOverlapped mid
      if overlapped then find fuel (mid + 1) endNum mid
      else if mid > start then find fuel start (mid - 1) ancestor
      else return some ancestor

def fastSeek (headNum : UInt32) : ℕ → UInt32 → Except ε (Option UInt32)
  | 0, _ => pure none
  | fuel + 1, backward =>
    if backward ≥ headNum then return some 0
    else do
      let overlapped ← isOverlapped (headNum - backward)
      if overlapped then return some (headNum - backward)
      fastSeek headNum fuel (if backward = 0 then 1 else backward <<< 1)

def findCommonAncestor (fuel : ℕ) (headNum : UInt32) : Except ε (Option UInt32) :=
  if headNum = 0 then return some headNum
  else do
    let some seekNum ← fastSeek isOverlapped headNum fuel 0 | return none
    if seekNum = headNum then return some headNum
    find isOverlapped fuel seekNum headNum 0

/-! ## Every probe stays at or below the head

Two peers that answer alike up to `headNum` get the same result, whatever they answer above it
and whether or not they fail. -/

section Queries

variable {isOverlapped} {isOverlapped' : UInt32 → Except ε Bool} {headNum : UInt32}
  (hagree : ∀ n, n ≤ headNum → isOverlapped n = isOverlapped' n)

lemma toNat_mid_lt {start endNum : UInt32} (hlt : start.toNat < endNum.toNat) :
    ((start + endNum) / 2).toNat < endNum.toNat := by
  rw [UInt32.toNat_div, UInt32.toNat_add]
  change (start.toNat + endNum.toNat) % 4294967296 / 2 < _
  have := endNum.toNat_lt
  omega

include hagree in
lemma find_congr : ∀ (fuel : ℕ) (start endNum ancestor : UInt32), start.toNat ≤ endNum.toNat →
    endNum ≤ headNum →
    find isOverlapped fuel start endNum ancestor = find isOverlapped' fuel start endNum ancestor := by
  intro fuel
  induction fuel with
  | zero => intro _ _ _ _ _; rfl
  | succ fuel ih =>
    intro start endNum ancestor hse he
    have heh := UInt32.le_iff_toNat_le.mp he
    by_cases hne : start = endNum
    · subst hne
      simp only [find, ↓reduceIte, hagree start he]
    have hlt : start.toNat < endNum.toNat :=
      Nat.lt_of_le_of_ne hse (fun h => hne (UInt32.toNat_inj.mp h))
    have hmid := toNat_mid_lt hlt
    simp only [find, if_neg hne, hagree _ (UInt32.le_iff_toNat_le.mpr (by omega) :
      (start + endNum) / 2 ≤ headNum)]
    cases isOverlapped' ((start + endNum) / 2) with
    | error _ => rfl
    | ok overlapped =>
      simp only [bind, Except.bind]
      split_ifs with hover hgt
      · -- the window above the middle
        have hsucc : ((start + endNum) / 2 + 1).toNat = ((start + endNum) / 2).toNat + 1 := by
          rw [UInt32.toNat_add, UInt32.toNat_one, Nat.mod_eq_of_lt (by have := endNum.toNat_lt; omega)]
        exact ih _ _ _ (by omega) he
      · -- the window below the middle
        have hgt' := UInt32.lt_iff_toNat_lt.mp hgt
        have hpred : ((start + endNum) / 2 - 1).toNat = ((start + endNum) / 2).toNat - 1 :=
          UInt32.toNat_sub_of_le _ _ (UInt32.le_iff_toNat_le.mpr (by change 1 ≤ _; omega))
        exact ih _ _ _ (by omega) (UInt32.le_iff_toNat_le.mpr (by omega))
      · rfl

include hagree in
lemma fastSeek_congr : ∀ (fuel : ℕ) (backward : UInt32),
    fastSeek isOverlapped headNum fuel backward = fastSeek isOverlapped' headNum fuel backward := by
  intro fuel
  induction fuel with
  | zero => intro _; rfl
  | succ fuel ih =>
    intro backward
    by_cases hge : backward ≥ headNum
    · simp only [fastSeek, if_pos hge]
    have hsub : headNum - backward ≤ headNum := by
      rw [ge_iff_le, UInt32.le_iff_toNat_le] at hge
      rw [UInt32.le_iff_toNat_le, UInt32.toNat_sub_of_le _ _ (UInt32.le_iff_toNat_le.mpr (by omega))]
      omega
    simp only [fastSeek, if_neg hge, hagree _ hsub]
    cases isOverlapped' (headNum - backward) with
    | error _ => rfl
    | ok overlapped =>
      simp only [bind, Except.bind]
      split_ifs
      · rfl
      · exact ih 1
      · exact ih _

lemma fastSeek_le : ∀ {fuel : ℕ} {backward s : UInt32},
    fastSeek isOverlapped headNum fuel backward = .ok (some s) → s ≤ headNum := by
  intro fuel
  induction fuel with
  | zero => intro _ _ h; cases h
  | succ fuel ih =>
    intro backward s h
    by_cases hge : backward ≥ headNum
    · simp only [fastSeek, if_pos hge, pure, Except.pure, Except.ok.injEq, Option.some.injEq] at h
      subst h
      exact UInt32.le_iff_toNat_le.mpr (Nat.zero_le _)
    have hsub : headNum - backward ≤ headNum := by
      rw [ge_iff_le, UInt32.le_iff_toNat_le] at hge
      rw [UInt32.le_iff_toNat_le, UInt32.toNat_sub_of_le _ _ (UInt32.le_iff_toNat_le.mpr (by omega))]
      omega
    simp only [fastSeek, if_neg hge] at h
    cases hq : isOverlapped (headNum - backward) with
    | error _ => simp [hq, bind, Except.bind] at h
    | ok overlapped =>
      simp only [hq, bind, Except.bind] at h
      split_ifs at h
      · simp only [pure, Except.pure, Except.ok.injEq, Option.some.injEq] at h
        exact h ▸ hsub
      · exact ih h
      · exact ih h

include hagree in
lemma findCommonAncestor_congr (fuel : ℕ) :
    findCommonAncestor isOverlapped fuel headNum = findCommonAncestor isOverlapped' fuel headNum := by
  by_cases h0 : headNum = 0
  · simp only [findCommonAncestor, if_pos h0]
  simp only [findCommonAncestor, if_neg h0, fastSeek_congr hagree]
  cases hfs : fastSeek isOverlapped' headNum fuel 0 with
  | error _ => rfl
  | ok r =>
    cases r with
    | none => rfl
    | some seekNum =>
      simp only [bind, Except.bind]
      split_ifs
      · rfl
      · exact find_congr hagree fuel seekNum headNum 0
          (UInt32.le_iff_toNat_le.mp (fastSeek_le hfs)) (UInt32.le_refl _)

end Queries

/-! ## A peer that answers

From here on `isOverlapped` answers every query with `p`. -/

section Answers

variable (p : UInt32 → Bool)

lemma find_same (fuel : ℕ) (start ancestor : UInt32) :
    find (fun n => .ok (p n) : UInt32 → Except ε Bool) (fuel + 1) start start ancestor =
      .ok (some (if p start then start else ancestor)) := by
  by_cases h : p start <;> simp [find, h, bind, Except.bind, pure, Except.pure]

lemma find_ne (fuel : ℕ) {start endNum : UInt32} (ancestor : UInt32) (hne : start ≠ endNum) :
    find (fun n => .ok (p n) : UInt32 → Except ε Bool) (fuel + 1) start endNum ancestor =
      if p ((start + endNum) / 2) then find (fun n => .ok (p n)) fuel ((start + endNum) / 2 + 1) endNum ((start + endNum) / 2)
      else if (start + endNum) / 2 > start then find (fun n => .ok (p n)) fuel start ((start + endNum) / 2 - 1) ancestor
      else .ok (some ancestor) := by
  simp [find, hne, bind, Except.bind, pure, Except.pure]

lemma fastSeek_succ (headNum : UInt32) (fuel : ℕ) (backward : UInt32) :
    fastSeek (fun n => .ok (p n) : UInt32 → Except ε Bool) headNum (fuel + 1) backward =
      if backward ≥ headNum then .ok (some 0)
      else if p (headNum - backward) then .ok (some (headNum - backward))
      else fastSeek (fun n => .ok (p n)) headNum fuel (if backward = 0 then 1 else backward <<< 1) := by
  by_cases h : backward ≥ headNum <;> by_cases h' : p (headNum - backward) <;>
    simp [fastSeek, h, h', bind, Except.bind, pure, Except.pure]

/-- The distances `fastSeek` steps through: zero, then the powers of two up to `2^31`, and zero
again, since `backward <<= 1` wraps. -/
def OnCycle (backward : UInt32) : Prop := backward = 0 ∨ ∃ j < 32, backward.toNat = 2 ^ j

lemma toNat_shiftLeft_one {backward : UInt32} {j : ℕ} (hb : backward.toNat = 2 ^ j) :
    (backward <<< 1).toNat = 2 ^ (j + 1) % 2 ^ 32 := by
  rw [UInt32.toNat_shiftLeft, hb, Nat.shiftLeft_eq, Nat.pow_succ]
  rfl

lemma onCycle_next {backward : UInt32} (h : OnCycle backward) :
    OnCycle (if backward = 0 then 1 else backward <<< 1) := by
  by_cases h0 : backward = 0
  · exact Or.inr ⟨0, by decide, by rw [if_pos h0]; rfl⟩
  rw [if_neg h0]
  obtain ⟨j, hj, hb⟩ := h.resolve_left h0
  have hshift := toNat_shiftLeft_one hb
  by_cases hj' : j = 31
  · -- `2^31 <<< 1` wraps to zero
    left
    apply UInt32.toNat_inj.mp
    rw [hshift, hj', Nat.mod_self]
    rfl
  · exact Or.inr ⟨j + 1, by omega, by
      rw [hshift, Nat.mod_eq_of_lt (Nat.pow_lt_pow_right (by decide) (by omega))]⟩

lemma toNat_le_of_onCycle {backward : UInt32} (h : OnCycle backward) : backward.toNat ≤ 2 ^ 31 := by
  rcases h with rfl | ⟨j, hj, hb⟩
  · exact Nat.zero_le _
  · rw [hb]
    exact Nat.pow_le_pow_right (by decide) (by omega)

lemma fastSeek_diverges {headNum : UInt32} (hhead : 2 ^ 31 < headNum.toNat)
    (hp : ∀ backward, OnCycle backward → p (headNum - backward) = false) :
    ∀ (fuel : ℕ) (backward : UInt32), OnCycle backward →
      fastSeek (fun n => .ok (p n) : UInt32 → Except ε Bool) headNum fuel backward = .ok none := by
  intro fuel
  induction fuel with
  | zero => intro _ _; rfl
  | succ fuel ih =>
    intro backward hb
    have hlt : ¬ backward ≥ headNum := by
      have := toNat_le_of_onCycle hb
      rw [ge_iff_le, UInt32.le_iff_toNat_le]
      omega
    rw [fastSeek_succ, if_neg hlt, hp backward hb, if_neg Bool.false_ne_true]
    exact ih _ (onCycle_next hb)

lemma find_diverges {A : UInt32} (hA : A.toNat < 2 ^ 32 - 1) (hp : ∀ n, n ≤ A → p n = true) :
    ∀ (fuel : ℕ) (start ancestor : UInt32), 1 ≤ start.toNat → start ≤ A →
      find (fun n => .ok (p n) : UInt32 → Except ε Bool) fuel start 0xFFFFFFFF ancestor = .ok none := by
  intro fuel
  induction fuel with
  | zero => intro _ _ _ _; rfl
  | succ fuel ih =>
    intro start ancestor hs hsA
    have hsA' := UInt32.le_iff_toNat_le.mp hsA
    have hne : start ≠ 0xFFFFFFFF := by
      intro h
      rw [h] at hsA'
      exact absurd hsA' (by change ¬ 4294967295 ≤ A.toNat; omega)
    have hmid : ((start + 0xFFFFFFFF) / 2).toNat = (start.toNat - 1) / 2 := by
      rw [UInt32.toNat_div, UInt32.toNat_add]
      change (start.toNat + 4294967295) % 4294967296 / 2 = _
      have := start.toNat_lt
      rw [show start.toNat + 4294967295 = (start.toNat - 1) + 4294967296 by omega, Nat.add_mod_right,
        Nat.mod_eq_of_lt (by omega)]
    have hover : p ((start + 0xFFFFFFFF) / 2) = true :=
      hp _ (UInt32.le_iff_toNat_le.mpr (by omega))
    rw [find_ne p fuel ancestor hne, if_pos hover]
    apply ih
    · rw [UInt32.toNat_add, hmid]
      change 1 ≤ ((start.toNat - 1) / 2 + 1) % 4294967296
      rw [Nat.mod_eq_of_lt (by have := start.toNat_lt; omega)]
      omega
    · rw [UInt32.le_iff_toNat_le, UInt32.toNat_add, hmid]
      change ((start.toNat - 1) / 2 + 1) % 4294967296 ≤ A.toNat
      rw [Nat.mod_eq_of_lt (by have := start.toNat_lt; omega)]
      omega

lemma fastSeek_cases {headNum : UInt32} (hhead : 2 ^ 31 < headNum.toNat) :
    ∀ (fuel : ℕ) (backward : UInt32), OnCycle backward →
      fastSeek (fun n => .ok (p n) : UInt32 → Except ε Bool) headNum fuel backward = .ok none ∨
      ∃ s, fastSeek (fun n => .ok (p n) : UInt32 → Except ε Bool) headNum fuel backward = .ok (some s) ∧
        p s = true ∧ headNum.toNat - 2 ^ 31 ≤ s.toNat := by
  intro fuel
  induction fuel with
  | zero => intro _ _; exact Or.inl rfl
  | succ fuel ih =>
    intro backward hb
    have hle := toNat_le_of_onCycle hb
    have hlt : ¬ backward ≥ headNum := by
      rw [ge_iff_le, UInt32.le_iff_toNat_le]
      omega
    rw [fastSeek_succ, if_neg hlt]
    by_cases hover : p (headNum - backward) = true
    · rw [if_pos hover]
      refine Or.inr ⟨_, rfl, hover, ?_⟩
      rw [UInt32.toNat_sub_of_le _ _ (UInt32.le_iff_toNat_le.mpr (by omega))]
      omega
    · rw [if_neg hover]
      exact ih _ (onCycle_next hb)

lemma findCommonAncestor_of_none {fuel : ℕ} {headNum : UInt32} (hhead : headNum ≠ 0)
    (hfs : fastSeek (fun n => .ok (p n) : UInt32 → Except ε Bool) headNum fuel 0 = .ok none) :
    findCommonAncestor (fun n => .ok (p n) : UInt32 → Except ε Bool) fuel headNum = .ok none := by
  simp [findCommonAncestor, hhead, hfs, bind, Except.bind, pure, Except.pure]

lemma findCommonAncestor_of_some {fuel : ℕ} {headNum seekNum : UInt32} (hhead : headNum ≠ 0)
    (hfs : fastSeek (fun n => .ok (p n) : UInt32 → Except ε Bool) headNum fuel 0 = .ok (some seekNum)) :
    findCommonAncestor (fun n => .ok (p n) : UInt32 → Except ε Bool) fuel headNum =
      if seekNum = headNum then .ok (some headNum)
      else find (fun n => .ok (p n)) fuel seekNum headNum 0 := by
  by_cases hs : seekNum = headNum <;>
    simp [findCommonAncestor, hhead, hfs, hs, bind, Except.bind, pure, Except.pure]

/-! ### Heads up to `2^31`: the search finds the ancestor -/

/-- What `find` keeps of the peer's answer `A`: the window `[start, endNum]` is well formed and
either holds `A`, or lies above it with `ancestor = A` already found. -/
def Bracket (A start endNum ancestor : UInt32) : Prop :=
  start.toNat ≤ endNum.toNat ∧
    (start.toNat ≤ A.toNat ∧ A.toNat ≤ endNum.toNat ∨ ancestor = A ∧ A.toNat < start.toNat)

lemma toNat_mid {start endNum : UInt32} (h : start.toNat + endNum.toNat < 2 ^ 32) :
    ((start + endNum) / 2).toNat = (start.toNat + endNum.toNat) / 2 := by
  rw [UInt32.toNat_div, UInt32.toNat_add, Nat.mod_eq_of_lt h]
  rfl

section Search

variable {p} {headNum A : UInt32} (hhead : headNum.toNat ≤ 2 ^ 31)
  (hp : ∀ n, n ≤ headNum → (p n = true ↔ n ≤ A))

include hp in
lemma find_same_of_bracket {start ancestor : UInt32} (hb : Bracket A start start ancestor)
    (he : start ≤ headNum) (fuel : ℕ) :
    find (fun n => .ok (p n) : UInt32 → Except ε Bool) (fuel + 1) start start ancestor =
      .ok (some A) := by
  obtain ⟨-, hin⟩ := hb
  rw [find_same]
  by_cases hover : p start = true
  · have hsA := UInt32.le_iff_toNat_le.mp ((hp start he).mp hover)
    rw [if_pos hover]
    rcases hin with h | h
    · rw [UInt32.toNat_inj.mp (show start.toNat = A.toNat by omega)]
    · omega
  · have hAs : ¬ start.toNat ≤ A.toNat := fun h =>
      hover ((hp start he).mpr (UInt32.le_iff_toNat_le.mpr h))
    rw [if_neg hover]
    rcases hin with h | ⟨rfl, -⟩
    · omega
    · rfl

include hhead hp in
lemma find_round {start endNum ancestor : UInt32} (hb : Bracket A start endNum ancestor)
    (he : endNum ≤ headNum) (hne : start ≠ endNum) (fuel : ℕ) :
    find (fun n => .ok (p n) : UInt32 → Except ε Bool) (fuel + 1) start endNum ancestor =
        .ok (some A) ∨
      ∃ start' endNum' ancestor',
        find (fun n => .ok (p n) : UInt32 → Except ε Bool) (fuel + 1) start endNum ancestor =
          find (fun n => .ok (p n)) fuel start' endNum' ancestor' ∧
        Bracket A start' endNum' ancestor' ∧ endNum' ≤ headNum ∧
        2 * (endNum'.toNat - start'.toNat + 1) ≤ endNum.toNat - start.toNat + 1 := by
  obtain ⟨hse, hin⟩ := hb
  have hlt : start.toNat < endNum.toNat :=
    Nat.lt_of_le_of_ne hse (fun h => hne (UInt32.toNat_inj.mp h))
  have heh := UInt32.le_iff_toNat_le.mp he
  have hmid := toNat_mid (show start.toNat + endNum.toNat < 2 ^ 32 by omega)
  have hmidle : (start + endNum) / 2 ≤ headNum := UInt32.le_iff_toNat_le.mpr (by omega)
  rw [find_ne p fuel ancestor hne]
  by_cases hover : p ((start + endNum) / 2) = true
  · -- the answer is at the middle or above it
    have hmA := UInt32.le_iff_toNat_le.mp ((hp _ hmidle).mp hover)
    have hsucc : ((start + endNum) / 2 + 1).toNat = ((start + endNum) / 2).toNat + 1 := by
      rw [UInt32.toNat_add, UInt32.toNat_one, Nat.mod_eq_of_lt (by change _ < 4294967296; omega)]
    rw [if_pos hover]
    refine Or.inr ⟨_, endNum, _, rfl, ⟨by omega, ?_⟩, he, by omega⟩
    by_cases hAm : A.toNat = ((start + endNum) / 2).toNat
    · exact Or.inr ⟨UInt32.toNat_inj.mp hAm.symm, by omega⟩
    · rcases hin with h | h <;> omega
  · have hAm : A.toNat < ((start + endNum) / 2).toNat := by
      by_contra h
      exact hover ((hp _ hmidle).mpr (UInt32.le_iff_toNat_le.mpr (by omega)))
    rw [if_neg hover]
    by_cases hgt : (start + endNum) / 2 > start
    · -- the answer is below the middle
      have hgt' := UInt32.lt_iff_toNat_lt.mp hgt
      have hpred : ((start + endNum) / 2 - 1).toNat = ((start + endNum) / 2).toNat - 1 :=
        UInt32.toNat_sub_of_le _ _ (UInt32.le_iff_toNat_le.mpr (by change 1 ≤ _; omega))
      rw [if_pos hgt]
      refine Or.inr ⟨start, _, ancestor, rfl, ⟨by omega, ?_⟩,
        UInt32.le_iff_toNat_le.mpr (by omega), by omega⟩
      rcases hin with h | h
      · exact Or.inl ⟨h.1, by omega⟩
      · exact Or.inr h
    · -- the middle is the start: the answer was already below the window
      have hgt' : ¬ start.toNat < ((start + endNum) / 2).toNat := fun h =>
        hgt (UInt32.lt_iff_toNat_lt.mpr h)
      rw [if_neg hgt]
      rcases hin with h | ⟨rfl, -⟩
      · omega
      · exact Or.inl rfl

include hhead hp in
/-- The run lemma: a bracketed window of at most `2^m` blocks is searched in `m + 1` rounds. -/
lemma find_of_bracket :
    ∀ (m fuel : ℕ) (start endNum ancestor : UInt32), Bracket A start endNum ancestor →
      endNum ≤ headNum → endNum.toNat - start.toNat + 1 ≤ 2 ^ m → m < fuel →
      find (fun n => .ok (p n) : UInt32 → Except ε Bool) fuel start endNum ancestor =
        .ok (some A) := by
  intro m
  induction m with
  | zero =>
    intro fuel start endNum ancestor hb he hw hf
    obtain ⟨fuel, rfl⟩ : ∃ f, fuel = f + 1 := ⟨fuel - 1, by omega⟩
    have hse : start = endNum := UInt32.toNat_inj.mp (by have := hb.1; rw [Nat.pow_zero] at hw; omega)
    subst hse
    exact find_same_of_bracket hp hb he fuel
  | succ m ih =>
    intro fuel start endNum ancestor hb he hw hf
    obtain ⟨fuel, rfl⟩ : ∃ f, fuel = f + 1 := ⟨fuel - 1, by omega⟩
    by_cases hne : start = endNum
    · subst hne
      exact find_same_of_bracket hp hb he fuel
    rcases find_round hhead hp hb he hne fuel with h | ⟨start', endNum', ancestor', heq, hb', he', hw'⟩
    · exact h
    · rw [heq]
      rw [Nat.pow_succ] at hw
      exact ih fuel start' endNum' ancestor' hb' he' (by omega) (by omega)

include hp in
lemma fastSeek_finds {k : ℕ} (hk31 : k ≤ 31) (hk : headNum.toNat ≤ 2 ^ k) :
    ∀ (fuel j : ℕ) (backward : UInt32), backward.toNat = 2 ^ j → j ≤ k → k - j < fuel →
      ∃ s, fastSeek (fun n => .ok (p n) : UInt32 → Except ε Bool) headNum fuel backward =
        .ok (some s) ∧ s ≤ A := by
  intro fuel
  induction fuel with
  | zero => intro _ _ _ _ _; omega
  | succ fuel ih =>
    intro j backward hb hj hf
    rw [fastSeek_succ]
    by_cases hge : backward ≥ headNum
    · exact ⟨0, by rw [if_pos hge], UInt32.le_iff_toNat_le.mpr (Nat.zero_le _)⟩
    have hlt : backward.toNat < headNum.toNat := by
      rw [ge_iff_le, UInt32.le_iff_toNat_le] at hge
      omega
    have hsub : headNum - backward ≤ headNum := by
      rw [UInt32.le_iff_toNat_le, UInt32.toNat_sub_of_le _ _ (UInt32.le_iff_toNat_le.mpr (by omega))]
      omega
    rw [if_neg hge]
    by_cases hover : p (headNum - backward) = true
    · exact ⟨_, by rw [if_pos hover], (hp _ hsub).mp hover⟩
    -- the next distance is `2^(j+1)`, still below `2^32` since `2^j < headNum ≤ 2^k`
    have hjk : j < k := (Nat.pow_lt_pow_iff_right (a := 2) (by decide)).mp (by omega)
    have hne : backward ≠ 0 := fun h => by
      rw [h, UInt32.toNat_zero] at hb
      exact Nat.ne_of_lt (Nat.two_pow_pos j) hb
    have hnext : (backward <<< 1).toNat = 2 ^ (j + 1) := by
      rw [toNat_shiftLeft_one hb, Nat.mod_eq_of_lt (Nat.pow_lt_pow_right (by decide) (by omega))]
    rw [if_neg hover, if_neg hne]
    exact ih (j + 1) _ hnext (by omega) (by omega)

include hp in
lemma fastSeek_finds_zero (hhead0 : headNum ≠ 0) {k : ℕ} (hk31 : k ≤ 31)
    (hk : headNum.toNat ≤ 2 ^ k) {fuel : ℕ} (hfuel : k + 1 < fuel) :
    ∃ s, fastSeek (fun n => .ok (p n) : UInt32 → Except ε Bool) headNum fuel 0 = .ok (some s) ∧
      s ≤ A := by
  obtain ⟨fuel, rfl⟩ : ∃ f, fuel = f + 1 := ⟨fuel - 1, by omega⟩
  have hge : ¬ (0 : UInt32) ≥ headNum := by
    rw [ge_iff_le, UInt32.le_iff_toNat_le, UInt32.toNat_zero]
    intro h
    exact hhead0 (UInt32.toNat_inj.mp (by rw [UInt32.toNat_zero]; omega))
  rw [fastSeek_succ, if_neg hge, UInt32.sub_zero]
  by_cases hover : p headNum = true
  · exact ⟨_, by rw [if_pos hover], (hp _ (UInt32.le_refl _)).mp hover⟩
  · rw [if_neg hover, if_pos rfl]
    exact fastSeek_finds hp hk31 hk fuel 0 1 rfl (Nat.zero_le _) (by omega)

include hp in
lemma findCommonAncestor_finds (hA : A ≤ headNum) {k : ℕ} (hk31 : k ≤ 31)
    (hk : headNum.toNat ≤ 2 ^ k) {fuel : ℕ} (hfuel : k + 1 < fuel) :
    findCommonAncestor (fun n => .ok (p n) : UInt32 → Except ε Bool) fuel headNum =
      .ok (some A) := by
  have hhead : headNum.toNat ≤ 2 ^ 31 :=
    Nat.le_trans hk (Nat.pow_le_pow_right (by decide) hk31)
  by_cases hhead0 : headNum = 0
  · subst hhead0
    rw [UInt32.le_iff_toNat_le, UInt32.toNat_zero, Nat.le_zero] at hA
    simp [findCommonAncestor, UInt32.toNat_inj.mp (hA.trans UInt32.toNat_zero.symm), pure,
      Except.pure]
  obtain ⟨s, hfs, hsA⟩ := fastSeek_finds_zero hp hhead0 hk31 hk hfuel
  rw [findCommonAncestor_of_some p hhead0 hfs]
  have hsA' := UInt32.le_iff_toNat_le.mp hsA
  have hAh := UInt32.le_iff_toNat_le.mp hA
  by_cases hsh : s = headNum
  · rw [if_pos hsh, UInt32.toNat_inj.mp (show headNum.toNat = A.toNat by subst hsh; omega)]
  · rw [if_neg hsh]
    apply find_of_bracket hhead hp (k + 1) fuel s headNum 0 ⟨by omega, Or.inl ⟨hsA', hAh⟩⟩
      (UInt32.le_refl _) _ hfuel
    rw [Nat.pow_succ]
    have := Nat.two_pow_pos k
    omega

end Search

end Answers

/-- `findCommonAncestor` never returns for heads above `2^31` whose common ancestor with the
peer lies more than `2^31` blocks back: `backward` wraps to zero and the same blocks are asked
again. Nor does it for the largest head `2^32 - 1` with any ancestor below it: the search's
`start + end` wraps and its window stops shrinking at block 1. -/
theorem findCommonAncestor_never_returns {ε : Type} :
    (∀ (headNum A : UInt32) (p : UInt32 → Bool), 2 ^ 31 < headNum.toNat →
      (∀ n, n ≤ headNum → (p n = true ↔ n ≤ A)) → A.toNat + 2 ^ 31 < headNum.toNat →
      ∀ fuel, findCommonAncestor (fun n => .ok (p n) : UInt32 → Except ε Bool) fuel headNum =
        .ok none) ∧
    (∀ (A : UInt32) (p : UInt32 → Bool), (∀ n, p n = true ↔ n ≤ A) → A < 0xFFFFFFFF →
      ∀ fuel, findCommonAncestor (fun n => .ok (p n) : UInt32 → Except ε Bool) fuel 0xFFFFFFFF =
        .ok none) := by
  constructor
  · intro headNum A p hhead hp hA fuel
    have hne : headNum ≠ 0 := by
      rintro rfl
      exact absurd hhead (by decide)
    -- every distance of the cycle lands above the ancestor
    have hmiss : ∀ backward, OnCycle backward → p (headNum - backward) = false := by
      intro backward hb
      have hle := toNat_le_of_onCycle hb
      have hsub := UInt32.toNat_sub_of_le headNum backward (UInt32.le_iff_toNat_le.mpr (by omega))
      apply Bool.eq_false_iff.mpr
      rw [Ne, hp _ (UInt32.le_iff_toNat_le.mpr (by omega)), UInt32.le_iff_toNat_le, hsub]
      omega
    exact findCommonAncestor_of_none p hne (fastSeek_diverges p hhead hmiss fuel 0 (Or.inl rfl))
  · intro A p hp hA fuel
    have hA' : A.toNat < 4294967295 := UInt32.lt_iff_toNat_lt.mp hA
    have hhead : 2 ^ 31 < (0xFFFFFFFF : UInt32).toNat := by decide
    rcases fastSeek_cases p hhead fuel 0 (Or.inl rfl) with hfs | ⟨s, hfs, hover, hs⟩
    · exact findCommonAncestor_of_none p (by decide) hfs
    · rw [findCommonAncestor_of_some p (by decide) hfs]
      have hsA := (hp s).mp hover
      have hne : s ≠ 0xFFFFFFFF := by
        rintro rfl
        have := UInt32.le_iff_toNat_le.mp hsA
        change 4294967295 ≤ A.toNat at this
        omega
      rw [if_neg hne]
      exact find_diverges p (A := A) (by omega)
        (fun n hn => (hp n).mpr hn) fuel s 0 (by change 2147483647 ≤ s.toNat at hs; omega) hsA

theorem findCommonAncestor_never_returns_head :
    findCommonAncestor (fun n => .ok (n == 0) : UInt32 → Except String Bool) 100 0x80000002 =
      .ok none := by
  refine (findCommonAncestor_never_returns (ε := String)).1 0x80000002 0 (fun n => n == 0)
    (by decide) (fun n _ => ?_) (by decide) 100
  rw [beq_iff_eq, UInt32.le_iff_toNat_le, UInt32.toNat_zero, Nat.le_zero, ← UInt32.toNat_inj,
    UInt32.toNat_zero]

end AuthorityBlock.Comm
