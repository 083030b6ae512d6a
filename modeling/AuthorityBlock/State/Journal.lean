import AuthorityBlock.State.Reference
import AuthorityBlock.StackedMap.Invariant

/-! What the journal of a state means. The entries still on the stacked map, read over the
committed world, give a plain world (`worldOf`). The setters only write entries of the key's
own kind, storage under the address's current barrier and each barrier one above the last
(`Valid`); so a bumped barrier names storage no entry holds, which is how `Delete` empties it. -/

namespace AuthorityBlock.State

open WriteLog StackedMap

section View

variable (c : Committed) (es : List (Key × Value))

def barrierOf (addr : Address) : ℕ :=
  match lastWrite es (.storageBarrier addr) with
  | some (.barrier b) => b
  | _ => 0

def accountOf (addr : Address) : Account :=
  match lastWrite es (.account addr) with
  | some (.account a) => a
  | _ => c.account addr

def codeOf (addr : Address) : List UInt8 :=
  match lastWrite es (.code addr) with
  | some (.code code) => code
  | _ => c.code addr

def storageOf (addr : Address) (key : Bytes32) : List UInt8 :=
  match lastWrite es (.storage addr (barrierOf es addr) key) with
  | some (.raw raw) => raw
  | _ => if barrierOf es addr ≠ 0 then [] else c.storage addr key

def worldOf (addr : Address) : Plain := ⟨accountOf c es addr, codeOf c es addr, storageOf c es addr⟩

lemma accountOf_eq_worldOf (addr : Address) : accountOf c es addr = (worldOf c es addr).account :=
  rfl

end View

def KindOk : Key → Value → Prop
  | .account _, .account _ => True
  | .code _, .code _ => True
  | .storage .., .raw _ => True
  | .storageBarrier _, .barrier _ => True
  | _, _ => False

def EntryOk (es : List (Key × Value)) : Key × Value → Prop
  | (.account _, .account _) => True
  | (.code _, .code _) => True
  | (.storage addr barrier _, .raw _) => barrier = barrierOf es addr
  | (.storageBarrier addr, .barrier barrier) => barrier = barrierOf es addr + 1
  | _ => False

def Valid (es : List (Key × Value)) : Prop :=
  ∀ i (h : i < es.length), EntryOk (es.take i) es[i]

lemma EntryOk.kindOk {es : List (Key × Value)} {k : Key} {v : Value} (h : EntryOk es (k, v)) :
    KindOk k v := by
  cases k <;> cases v <;> first | exact trivial | exact absurd h id

lemma valid_nil : Valid [] := fun _ h => absurd h (Nat.not_lt_zero _)

lemma valid_concat_iff {es : List (Key × Value)} {e : Key × Value} :
    Valid (es ++ [e]) ↔ Valid es ∧ EntryOk es e := by
  constructor
  · intro h
    refine ⟨fun i hi => ?_, ?_⟩
    · have := h i (by simp; omega)
      rwa [List.take_append_of_le_length (by omega), List.getElem_append_left hi] at this
    · have := h es.length (by simp)
      rwa [List.take_left' rfl, List.getElem_concat_length rfl] at this
  · rintro ⟨hv, he⟩ i hi
    rw [List.length_append, List.length_singleton] at hi
    rcases Nat.lt_succ_iff_lt_or_eq.mp hi with hi | rfl
    · rw [List.take_append_of_le_length (by omega), List.getElem_append_left hi]
      exact hv i hi
    · rwa [List.take_left' rfl, List.getElem_concat_length rfl]

lemma Valid.of_append {es es' : List (Key × Value)} (h : Valid (es ++ es')) : Valid es := by
  intro i hi
  have := h i (by simp; omega)
  rwa [List.take_append_of_le_length (by omega), List.getElem_append_left hi] at this

lemma Valid.kindOk {es : List (Key × Value)} (h : Valid es) {k : Key} {v : Value}
    (hw : lastWrite es k = some v) : KindOk k v := by
  induction es using List.reverseRecOn with
  | nil => simp at hw
  | append_singleton es e ih =>
    obtain ⟨hv, he⟩ := valid_concat_iff.mp h
    obtain ⟨k', v'⟩ := e
    rw [lastWrite_concat] at hw
    by_cases hk : k' = k
    · rw [if_pos hk] at hw
      cases hw
      subst hk
      exact he.kindOk
    · rw [if_neg hk] at hw
      exact ih hv hw

lemma barrierOf_concat (es : List (Key × Value)) (k : Key) (v : Value) (addr : Address) :
    barrierOf (es ++ [(k, v)]) addr =
      if k = .storageBarrier addr then (match v with | .barrier b => b | _ => 0)
      else barrierOf es addr := by
  unfold barrierOf
  rw [lastWrite_concat]
  by_cases hk : k = .storageBarrier addr
  · rw [if_pos hk, if_pos hk]
    cases v <;> rfl
  · rw [if_neg hk, if_neg hk]

lemma barrierOf_le_concat {es : List (Key × Value)} {e : Key × Value} (he : EntryOk es e)
    (addr : Address) : barrierOf es addr ≤ barrierOf (es ++ [e]) addr := by
  obtain ⟨k, v⟩ := e
  rw [barrierOf_concat]
  split_ifs with hk
  · subst hk
    cases v with
    | barrier b =>
      change b = barrierOf es addr + 1 at he
      show barrierOf es addr ≤ b
      omega
    | _ => exact absurd he id
  · exact le_rfl

lemma Valid.le_barrierOf {es : List (Key × Value)} (h : Valid es) {addr : Address} {b : ℕ}
    {key : Bytes32} {v : Value} (hw : lastWrite es (.storage addr b key) = some v) :
    b ≤ barrierOf es addr := by
  induction es using List.reverseRecOn with
  | nil => simp at hw
  | append_singleton es e ih =>
    obtain ⟨hv, he⟩ := valid_concat_iff.mp h
    refine le_trans ?_ (barrierOf_le_concat he addr)
    obtain ⟨k', v'⟩ := e
    rw [lastWrite_concat] at hw
    by_cases hk : k' = .storage addr b key
    · subst hk
      cases v' with
      | raw raw =>
        change b = barrierOf es addr at he
        exact he.le
      | _ => exact absurd he id
    · rw [if_neg hk] at hw
      exact ih hv hw

section Entry

variable {c : Committed} {es : List (Key × Value)}

@[simp] lemma accountOf_concat_account (addr addr' : Address) (a : Account) :
    accountOf c (es ++ [(.account addr, .account a)]) addr' =
      if addr = addr' then a else accountOf c es addr' := by
  unfold accountOf
  by_cases ha : addr = addr' <;> simp [ha]

@[simp] lemma accountOf_concat_of_ne {k : Key} (hk : ∀ a, k ≠ .account a) (v : Value) (addr : Address) :
    accountOf c (es ++ [(k, v)]) addr = accountOf c es addr := by
  unfold accountOf
  rw [lastWrite_concat, if_neg (hk addr)]

@[simp] lemma barrierOf_concat_barrier (addr addr' : Address) (b : ℕ) :
    barrierOf (es ++ [(.storageBarrier addr, .barrier b)]) addr' =
      if addr = addr' then b else barrierOf es addr' := by
  unfold barrierOf
  by_cases ha : addr = addr' <;> simp [ha]

@[simp] lemma barrierOf_concat_of_ne {k : Key} (hk : ∀ a, k ≠ .storageBarrier a) (v : Value)
    (addr : Address) : barrierOf (es ++ [(k, v)]) addr = barrierOf es addr := by
  unfold barrierOf
  rw [lastWrite_concat, if_neg (hk addr)]

end Entry

/-! ## How one entry changes the world -/

section Concat

variable (c : Committed) (es : List (Key × Value))

lemma worldOf_concat_account (a : Address) (acc : Account) :
    worldOf c (es ++ [(.account a, .account acc)]) =
      Function.update (worldOf c es) a { worldOf c es a with account := acc } := by
  funext addr
  by_cases ha : addr = a
  · subst ha
    ext <;> simp [worldOf, accountOf, codeOf, storageOf]
  · rw [Function.update_of_ne ha]
    ext <;> simp [worldOf, accountOf, codeOf, storageOf, Ne.symm ha]

lemma worldOf_concat_code (a : Address) (code : List UInt8) :
    worldOf c (es ++ [(.code a, .code code)]) =
      Function.update (worldOf c es) a { worldOf c es a with code } := by
  funext addr
  by_cases ha : addr = a
  · subst ha
    ext <;> simp [worldOf, accountOf, codeOf, storageOf]
  · rw [Function.update_of_ne ha]
    ext <;> simp [worldOf, accountOf, codeOf, storageOf, Ne.symm ha]

lemma worldOf_concat_storage (a : Address) (key : Bytes32) (raw : List UInt8) :
    worldOf c (es ++ [(.storage a (barrierOf es a) key, .raw raw)]) =
      Function.update (worldOf c es) a
        { worldOf c es a with storage := Function.update (worldOf c es a).storage key raw } := by
  funext addr
  by_cases ha : addr = a
  · subst ha
    apply Plain.ext
    · simp [worldOf, accountOf]
    · simp [worldOf, codeOf]
    funext key'
    by_cases hk : key' = key
    · subst hk
      simp [worldOf, storageOf]
    · simp [worldOf, storageOf, hk, Ne.symm hk]
  · rw [Function.update_of_ne ha]
    ext <;> simp [worldOf, accountOf, codeOf, storageOf, Ne.symm ha]

lemma worldOf_concat_barrier (hv : Valid es) (a : Address) :
    worldOf c (es ++ [(.storageBarrier a, .barrier (barrierOf es a + 1))]) =
      Function.update (worldOf c es) a { worldOf c es a with storage := fun _ => [] } := by
  funext addr
  by_cases ha : addr = a
  · subst ha
    apply Plain.ext
    · simp [worldOf, accountOf]
    · simp [worldOf, codeOf]
    funext key
    have hnone : lastWrite es (.storage addr (barrierOf es addr + 1) key) = none := by
      by_contra hne
      obtain ⟨v, hw⟩ := Option.ne_none_iff_exists'.mp hne
      have := hv.le_barrierOf hw
      omega
    simp [worldOf, storageOf, barrierOf_concat, hnone]
  · rw [Function.update_of_ne ha]
    ext <;> simp [worldOf, accountOf, codeOf, storageOf, barrierOf_concat, Ne.symm ha]

lemma worldOf_nil : worldOf c [] = Plain.ofCommitted c := by
  funext addr
  ext <;> simp [worldOf, accountOf, codeOf, storageOf, barrierOf, Plain.ofCommitted]

end Concat

end AuthorityBlock.State
