import Mathlib

/-! Codes read back from the front of a stream. A decoder that returns each word of a code and
the rest of the stream makes the code injective and prefix-free; a family of words none of
which is a prefix of another splits any concatenation at the same place. -/

namespace PrefixCode

variable {α γ : Type}

/-- `dec` reads back, from the front of any stream, each word `enc` writes for a value of
`P`. -/
def Reads (enc : α → List γ) (dec : List γ → Option (α × List γ)) (P : α → Prop) : Prop :=
  ∀ a, P a → ∀ rest, dec (enc a ++ rest) = some (a, rest)

/-- No word of `S` is a prefix of another. -/
def PrefixFree (S : Set (List γ)) : Prop := ∀ x ∈ S, ∀ y ∈ S, x <+: y → x = y

section Reads

variable {enc : α → List γ} {dec : List γ → Option (α × List γ)} {P : α → Prop}

lemma Reads.eq_of_append_eq (h : Reads enc dec P) {a b : α} (ha : P a) (hb : P b)
    {r r' : List γ} (heq : enc a ++ r = enc b ++ r') : a = b ∧ r = r' := by
  have hdec := h a ha r
  rw [heq, h b hb r', Option.some.injEq, Prod.mk.injEq] at hdec
  exact ⟨hdec.1.symm, hdec.2.symm⟩

lemma Reads.injective (h : Reads enc dec P) {a b : α} (ha : P a) (hb : P b)
    (heq : enc a = enc b) : a = b :=
  (h.eq_of_append_eq ha hb (by rw [heq] : enc a ++ [] = enc b ++ [])).1

lemma Reads.prefixFree (h : Reads enc dec P) : PrefixFree {w | ∃ a, P a ∧ enc a = w} := by
  rintro _ ⟨a, ha, rfl⟩ _ ⟨b, hb, rfl⟩ ⟨r, hr⟩
  rw [(h.eq_of_append_eq ha hb (by rw [hr, List.append_nil] : enc a ++ r = enc b ++ [])).1]

end Reads

lemma PrefixFree.eq_of_append_eq {S : Set (List γ)} (hS : PrefixFree S) {x y : List γ}
    (hx : x ∈ S) (hy : y ∈ S) {r r' : List γ} (heq : x ++ r = y ++ r') : x = y ∧ r = r' := by
  have hxy : x = y := by
    rcases List.append_eq_append_iff.mp heq with ⟨m, rfl, -⟩ | ⟨m, rfl, -⟩
    · exact hS x hx _ hy ⟨m, rfl⟩
    · exact (hS y hy _ hx ⟨m, rfl⟩).symm
  subst hxy
  exact ⟨rfl, List.append_cancel_left heq⟩

end PrefixCode
