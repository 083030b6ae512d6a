import Mathlib

/-! A bit array kept as bytes, as bloom filters keep it. A probe is a byte index and a one-bit
mask; setting ORs the mask into its byte and testing checks that the byte has every bit of the
mask. A probing loop hands its probes in order to a callback on a state, and stops at the first
probe the callback refuses. Setting only adds bits, so a probe once set stays set. -/

namespace BitArray

variable {σ : Type}

def setBit (bits : List UInt8) (index : ℕ) (bit : UInt8) : List UInt8 :=
  bits.modify index (· ||| bit)

def hasBit (bits : List UInt8) (index : ℕ) (bit : UInt8) : Bool :=
  (bits.getD index 0 &&& bit) == bit

def setAll (bits : List UInt8) (probes : List (ℕ × UInt8)) : List UInt8 :=
  probes.foldl (fun bits p => setBit bits p.1 p.2) bits

/-- The callback loop: each probe in turn, until the callback answers `false`. -/
def runProbes (cb : σ → ℕ → UInt8 → σ × Bool) : List (ℕ × UInt8) → σ → σ × Bool
  | [], s => (s, true)
  | p :: ps, s =>
    match cb s p.1 p.2 with
    | (t, false) => (t, false)
    | (t, true) => runProbes cb ps t

lemma runProbes_update (upd : σ → ℕ → UInt8 → σ) :
    ∀ (ps : List (ℕ × UInt8)) (s : σ),
      runProbes (fun s index bit => (upd s index bit, true)) ps s =
        (ps.foldl (fun s p => upd s p.1 p.2) s, true)
  | [], _ => rfl
  | _ :: ps, _ => runProbes_update upd ps _

lemma runProbes_test (test : σ → ℕ → UInt8 → Bool) :
    ∀ (ps : List (ℕ × UInt8)) (s : σ),
      runProbes (fun s index bit => (s, test s index bit)) ps s =
        (s, ps.all fun p => test s p.1 p.2)
  | [], _ => rfl
  | p :: ps, s => by
    cases h : test s p.1 p.2
    · simp [runProbes, h]
    · simp [runProbes, h, runProbes_test test ps s]

@[simp] lemma length_setBit (bits : List UInt8) (index : ℕ) (bit : UInt8) :
    (setBit bits index bit).length = bits.length :=
  List.length_modify _ _ _

@[simp] lemma length_setAll (bits : List UInt8) (probes : List (ℕ × UInt8)) :
    (setAll bits probes).length = bits.length := by
  induction probes generalizing bits with
  | nil => rfl
  | cons p ps ih => exact (ih (setBit bits p.1 p.2)).trans (length_setBit _ _ _)

@[simp] lemma length_foldl_setAll {α : Type} (probesOf : α → List (ℕ × UInt8)) :
    ∀ (items : List α) (bits : List UInt8),
      (items.foldl (fun bits x => setAll bits (probesOf x)) bits).length = bits.length
  | [], _ => rfl
  | _ :: ys, _ => (length_foldl_setAll probesOf ys _).trans (length_setAll _ _)

lemma and_or_of_and {x y b : UInt8} (h : x &&& b = b) : (x ||| y) &&& b = b := by
  apply UInt8.toBitVec_inj.mp
  have h' := congrArg UInt8.toBitVec h
  simp only [UInt8.toBitVec_and, UInt8.toBitVec_or] at h' ⊢
  ext i hi
  have hi' := congrArg (fun v => v[i]) h'
  simp only [BitVec.getElem_and, BitVec.getElem_or] at hi' ⊢
  cases hb : b.toBitVec[i] <;> cases hx : x.toBitVec[i] <;> simp_all

lemma or_and_self (x b : UInt8) : (x ||| b) &&& b = b := by
  apply UInt8.toBitVec_inj.mp
  simp only [UInt8.toBitVec_and, UInt8.toBitVec_or]
  ext i hi
  simp only [BitVec.getElem_and, BitVec.getElem_or]
  cases b.toBitVec[i] <;> simp

lemma hasBit_setBit_self {bits : List UInt8} {index : ℕ} (h : index < bits.length) (bit : UInt8) :
    hasBit (setBit bits index bit) index bit := by
  simp [hasBit, setBit, List.getD_eq_getElem?_getD, h, or_and_self]

lemma hasBit_setBit_of_hasBit {bits : List UInt8} {index j : ℕ} {bit b : UInt8}
    (h : hasBit bits j b) : hasBit (setBit bits index bit) j b := by
  simp only [hasBit, setBit, beq_iff_eq, List.getD_eq_getElem?_getD, List.getElem?_modify] at h ⊢
  by_cases hj : index = j
  · subst hj
    cases hx : bits[index]? with
    | none => simp_all
    | some x =>
      rw [hx, Option.getD_some] at h
      simpa using and_or_of_and (y := bit) h
  · simpa [hj] using h

lemma hasBit_setAll_of_hasBit {bits : List UInt8} {j : ℕ} {b : UInt8} (h : hasBit bits j b)
    (probes : List (ℕ × UInt8)) : hasBit (setAll bits probes) j b := by
  induction probes generalizing bits with
  | nil => exact h
  | cons p ps ih => exact ih (hasBit_setBit_of_hasBit h)

lemma hasBit_setAll {bits : List UInt8} {probes : List (ℕ × UInt8)}
    (hin : ∀ p ∈ probes, p.1 < bits.length) : ∀ p ∈ probes, hasBit (setAll bits probes) p.1 p.2 := by
  induction probes generalizing bits with
  | nil => intro _ h; cases h
  | cons q qs ih =>
    intro p hp
    have hq : q.1 < bits.length := hin q List.mem_cons_self
    rcases List.mem_cons.mp hp with rfl | hp
    · exact hasBit_setAll_of_hasBit (hasBit_setBit_self hq _) qs
    · exact ih (fun r hr => by simpa using hin r (List.mem_cons_of_mem _ hr)) p hp

lemma hasBit_foldl_setAll_of_hasBit {α : Type} (probesOf : α → List (ℕ × UInt8)) :
    ∀ (items : List α) {bits : List UInt8} {j : ℕ} {b : UInt8}, hasBit bits j b →
      hasBit (items.foldl (fun bits x => setAll bits (probesOf x)) bits) j b
  | [], _, _, _, h => h
  | _ :: ys, _, _, _, h => hasBit_foldl_setAll_of_hasBit probesOf ys (hasBit_setAll_of_hasBit h _)

/-- The run lemma of a filter build: after every item's probes are set in turn, every probe of
every item is set. -/
lemma hasBit_foldl_setAll {α : Type} (probesOf : α → List (ℕ × UInt8)) :
    ∀ (items : List α) (bits : List UInt8),
      (∀ x ∈ items, ∀ p ∈ probesOf x, p.1 < bits.length) →
      ∀ x ∈ items, ∀ p ∈ probesOf x,
        hasBit (items.foldl (fun bits x => setAll bits (probesOf x)) bits) p.1 p.2
  | [], _, _ => fun _ h => by cases h
  | y :: ys, bits, hin => by
    have hin' : ∀ x ∈ ys, ∀ p ∈ probesOf x, p.1 < (setAll bits (probesOf y)).length := by
      intro x hx p hp
      rw [length_setAll]
      exact hin x (List.mem_cons_of_mem _ hx) p hp
    intro x hx p hp
    rcases List.mem_cons.mp hx with rfl | hx
    · exact hasBit_foldl_setAll_of_hasBit probesOf ys (hasBit_setAll (hin x List.mem_cons_self) p hp)
    · exact hasBit_foldl_setAll probesOf ys _ hin' x hx p hp

end BitArray
