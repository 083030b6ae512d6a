import AuthorityBlock.Builtin.Authority
import AuthorityBlock.Lib.LinkedList

/-! The `Authority` list over whole runs of `Add`, `Revoke` and `Update`. The entries are a
doubly linked list of the listed node masters in the order they were added, and a listed
entry is never the empty one while every endorsor added is non-zero, as the contract's `add`
requires. `Get` reads membership from the links or the head, but `Revoke` and `Update` test
`IsLinked` only, which the single entry of a one-entry list is not. -/

namespace AuthorityBlock.Authority

open LinkedList

/-- The storage of the contract holds the list `l` of node masters. -/
structure Listed (a : Authority) (l : List Address) : Prop where
  links : Represents (fun x => (a.entries x).next) (fun x => (a.entries x).prev) a.head a.tail l
  endorsor : ∀ x ∈ l, (a.entries x).endorsor ≠ Address.zero

lemma listed_new : Listed new [] where
  links := ⟨List.nodup_nil, rfl, rfl, fun _ h => absurd h List.not_mem_nil,
    fun _ h => absurd h List.not_mem_nil, fun _ _ => ⟨rfl, rfl⟩⟩
  endorsor _ h := absurd h List.not_mem_nil

section Steps

variable {a : Authority} {l : List Address}

lemma Listed.isEmpty_eq_false (h : Listed a l) {x : Address} (hx : x ∈ l) :
    (a.entries x).IsEmpty = false := by
  have he := h.endorsor x hx
  simp [Entry.IsEmpty, Address.IsZero, he]

lemma Listed.not_mem_of_isEmpty (h : Listed a l) {x : Address}
    (hx : (a.entries x).IsEmpty = true) : x ∉ l :=
  fun hm => by simp [h.isEmpty_eq_false hm] at hx

lemma Listed.isLinked (h : Listed a l) (x : Address) :
    (a.entries x).IsLinked = decide (x ∈ l ∧ l ≠ [x]) := by
  rw [Entry.IsLinked, Bool.or_comm]
  by_cases hx : x ∈ l
  · rw [decide_eq_decide.mpr (and_iff_right hx)]
    exact Bool.eq_iff_iff.mpr ((h.links.isLinked_iff hx).trans decide_eq_true_iff.symm)
  · simp [(h.links.unlinked x hx).1, (h.links.unlinked x hx).2, hx]

lemma Listed.get (h : Listed a l) (x : Address) :
    a.get x = (decide (x ∈ l), (a.entries x).endorsor, (a.entries x).identity,
      (a.entries x).active) := by
  have hmem := h.links.mem_iff x
  unfold Authority.get
  by_cases hl : (a.entries x).IsLinked = true
  · rw [if_pos hl, decide_eq_true (hmem.mpr (Or.inl (by simpa [Entry.IsLinked, Bool.or_comm]
      using hl)))]
  · rw [if_neg hl]
    congr 1
    have hl' : ((a.entries x).next.isSome || (a.entries x).prev.isSome) = false := by
      simpa [Entry.IsLinked, Bool.or_comm] using hl
    simp [hmem, hl']

/-- The candidates of the masters `l`, in order, as `AllCandidates` reads them. -/
def listedCandidates (a : Authority) (l : List Address) : List Candidate :=
  l.map fun p => candidateOf p (a.entries p)

lemma Listed.allCandidates_eq_some (h : Listed a l) {fuel : ℕ} {all : List Candidate}
    (hall : a.allCandidates fuel = some all) : all = listedCandidates a l := by
  rw [Authority.allCandidates, allCandidatesLoop_eq, Option.map_eq_some_iff] at hall
  obtain ⟨l', hl', rfl⟩ := hall
  have hmore := Walk.follow_of_le (le_max_left fuel (l.length + 1)) hl'
  rw [Walk.follow_of_le (le_max_right fuel (l.length + 1))
    (show Walk.follow a.next (l.length + 1) a.head = some l from
      h.links.follow (Nat.lt_succ_self _))] at hmore
  obtain rfl := Option.some.inj hmore
  simp [listedCandidates]

lemma Listed.allCandidates (h : Listed a l) {fuel : ℕ} (hf : l.length < fuel) :
    a.allCandidates fuel = some (l.map fun p => candidateOf p (a.entries p)) := by
  rw [Authority.allCandidates, allCandidatesLoop_eq, show Walk.follow a.next fuel a.head = some l
    from h.links.follow hf]
  simp

lemma Listed.add (h : Listed a l) {x : Address} (endorsor : Address) (identity : Bytes32)
    (hx : (a.entries x).IsEmpty = true) (he : endorsor ≠ Address.zero) :
    (a.add x endorsor identity).2 = true ∧ Listed (a.add x endorsor identity).1 (l ++ [x]) := by
  have hxl := h.not_mem_of_isEmpty hx
  have hxt : a.tail ≠ some x := fun ht => hxl (List.mem_of_getLast? (h.links.tail_eq ▸ ht))
  -- the entries after `Add`, whichever branch the tail takes
  have hentries : ∀ y, (a.add x endorsor identity).1.entries y =
      if y = x then { a.entries x with endorsor, identity, active := true, prev := a.tail }
      else if a.tail = some y then { a.entries y with next := some x } else a.entries y := by
    intro y
    cases ht : a.tail with
    | none => simp [Authority.add, hx, ht]
    | some t =>
      by_cases hyx : y = x
      · simp [Authority.add, hx, ht, hyx]
      · by_cases hyt : y = t
        · subst hyt
          simp [Authority.add, hx, ht, hyx]
        · simp [Authority.add, hx, ht, hyx, hyt, Ne.symm hyt]
  have hhead : (a.add x endorsor identity).1.head = if a.tail = none then some x else a.head := by
    cases ht : a.tail <;> simp [Authority.add, hx, ht]
  have htail : (a.add x endorsor identity).1.tail = some x := by
    cases ht : a.tail <;> simp [Authority.add, hx, ht]
  refine ⟨by simp [Authority.add, hx], ⟨?_, ?_⟩⟩
  · rw [hhead, htail]
    refine h.links.append hxl (fun y => ?_) (fun y => ?_)
    · by_cases hyx : y = x
      · subst hyx
        simp [hentries, hxt, (h.links.unlinked y hxl).1]
      · by_cases hyt : a.tail = some y <;> simp [hentries, hyx, hyt]
    · by_cases hyx : y = x
      · simp [hentries, hyx]
      · by_cases hyt : a.tail = some y <;> simp [hentries, hyx, hyt]
  · intro y hy
    by_cases hyx : y = x
    · simp [hentries, hyx, he]
    · have hyl : y ∈ l := by simpa [hyx] using hy
      by_cases hyt : a.tail = some y <;> simp [hentries, hyx, hyt, h.endorsor y hyl]

lemma add_of_isEmpty_eq_false {x : Address} (endorsor : Address) (identity : Bytes32)
    (hx : (a.entries x).IsEmpty = false) : a.add x endorsor identity = (a, false) := by
  simp [Authority.add, hx]

lemma Listed.revoke (h : Listed a l) {x : Address} (hx : x ∈ l) (hl : l ≠ [x]) :
    (a.revoke x).2 = true ∧ Listed (a.revoke x).1 (l.erase x) := by
  have hlinked : (a.entries x).IsLinked = true := by simp [h.isLinked x, hx, hl]
  have hne : ∀ p, (a.entries x).prev = some p → ∀ n, (a.entries x).next = some n → p ≠ n :=
    fun p hp n hn hpn => h.links.prev_ne_next hp (hpn ▸ hn)
  have hpx : ∀ p, (a.entries x).prev = some p → p ≠ x :=
    fun p hp hpx => h.links.prev_ne_self x (hpx ▸ hp)
  have hnx : ∀ n, (a.entries x).next = some n → n ≠ x :=
    fun n hn hnx => h.links.next_ne_self x (hnx ▸ hn)
  -- the entries after `Revoke`, whichever neighbours `x` has
  have hentries : ∀ y, (a.revoke x).1.entries y =
      if y = x then { a.entries x with next := none, prev := none, active := false }
      else if (a.entries x).prev = some y then
        { a.entries y with next := (a.entries x).next }
      else if (a.entries x).next = some y then
        { a.entries y with prev := (a.entries x).prev }
      else a.entries y := by
    intro y
    by_cases hyx : y = x
    · subst hyx
      cases hp : (a.entries y).prev <;> cases hn : (a.entries y).next <;>
        simp [Authority.revoke, hlinked, hp, hn]
    · cases hp : (a.entries x).prev with
      | none =>
        cases hn : (a.entries x).next with
        | none => simp [Authority.revoke, hlinked, hp, hn]
        | some n =>
          by_cases hyn : y = n
          · subst hyn
            simp [Authority.revoke, hlinked, hp, hn, hyx]
          · simp [Authority.revoke, hlinked, hp, hn, hyx, hyn, Ne.symm hyn]
      | some p =>
        cases hn : (a.entries x).next with
        | none =>
          by_cases hyp : y = p
          · subst hyp
            simp [Authority.revoke, hlinked, hp, hn, hyx]
          · simp [Authority.revoke, hlinked, hp, hn, hyx, hyp, Ne.symm hyp]
        | some n =>
          have hpn := hne p hp n hn
          by_cases hyp : y = p
          · subst hyp
            simp [Authority.revoke, hlinked, hp, hn, hyx, hpn]
          · by_cases hyn : y = n
            · subst hyn
              simp [Authority.revoke, hlinked, hp, hn, hyx, hyp, Ne.symm hyp]
            · simp [Authority.revoke, hlinked, hp, hn, hyx, hyp, hyn, Ne.symm hyp, Ne.symm hyn]
  have hhead : (a.revoke x).1.head =
      if (a.entries x).prev = none then (a.entries x).next else a.head := by
    cases hp : (a.entries x).prev <;> cases hn : (a.entries x).next <;>
      simp [Authority.revoke, hlinked, hp, hn]
  have htail : (a.revoke x).1.tail =
      if (a.entries x).next = none then (a.entries x).prev else a.tail := by
    cases hp : (a.entries x).prev <;> cases hn : (a.entries x).next <;>
      simp [Authority.revoke, hlinked, hp, hn]
  refine ⟨by simp [Authority.revoke, hlinked], ⟨?_, ?_⟩⟩
  · rw [hhead, htail]
    refine h.links.erase hx (fun y => ?_) (fun y => ?_)
    · by_cases hyx : y = x
      · simp [hentries, hyx]
      · by_cases hyp : (a.entries x).prev = some y
        · simp [hentries, hyx, hyp]
        · by_cases hyn : (a.entries x).next = some y <;> simp [hentries, hyx, hyp, hyn]
    · by_cases hyx : y = x
      · simp [hentries, hyx]
      · by_cases hyp : (a.entries x).prev = some y
        · have hyn : (a.entries x).next ≠ some y := fun hyn => hne y hyp y hyn rfl
          simp [hentries, hyx, hyp, hyn]
        · by_cases hyn : (a.entries x).next = some y <;> simp [hentries, hyx, hyp, hyn]
  · intro y hy
    have hyx : y ≠ x := fun hyx => h.links.nodup.not_mem_erase (hyx ▸ hy)
    have hyl : y ∈ l := (h.links.nodup.mem_erase_iff.mp hy).2
    by_cases hyp : (a.entries x).prev = some y
    · simp [hentries, hyx, hyp, h.endorsor y hyl]
    · by_cases hyn : (a.entries x).next = some y <;>
        simp [hentries, hyx, hyp, hyn, h.endorsor y hyl]

lemma revoke_of_isLinked_eq_false {x : Address} (hx : (a.entries x).IsLinked = false) :
    a.revoke x = (a, false) := by
  simp [Authority.revoke, hx]

lemma Listed.update (h : Listed a l) {x : Address} (hx : x ∈ l) (hl : l ≠ [x]) (active : Bool) :
    (a.update x active).2 = true ∧ Listed (a.update x active).1 l ∧
      (a.update x active).1.entries x = { a.entries x with active } := by
  have hlinked : (a.entries x).IsLinked = true := by simp [h.isLinked x, hx, hl]
  have hentries : ∀ y, (a.update x active).1.entries y =
      if y = x then { a.entries x with active } else a.entries y := by
    intro y
    simp [Authority.update, hlinked]
  refine ⟨by simp [Authority.update, hlinked], ⟨?_, fun y hy => ?_⟩, by simp [hentries]⟩
  · have hsame : ∀ y, ((a.update x active).1.entries y).next = (a.entries y).next ∧
        ((a.update x active).1.entries y).prev = (a.entries y).prev := by
      intro y
      by_cases hyx : y = x <;> simp [hentries, hyx]
    have hends : (a.update x active).1.head = a.head ∧ (a.update x active).1.tail = a.tail := by
      simp [Authority.update, hlinked]
    rw [hends.1, hends.2, show (fun y => ((a.update x active).1.entries y).next) =
      fun y => (a.entries y).next from funext fun y => (hsame y).1,
      show (fun y => ((a.update x active).1.entries y).prev) =
      fun y => (a.entries y).prev from funext fun y => (hsame y).2]
    exact h.links
  · by_cases hyx : y = x
    · subst hyx
      simp [hentries, h.endorsor y hy]
    · simp [hentries, hyx, h.endorsor y hy]

lemma update_of_isLinked_eq_false {x : Address} (hx : (a.entries x).IsLinked = false)
    (active : Bool) : a.update x active = (a, false) := by
  simp [Authority.update, hx]

lemma update_of_isLinked_eq_true {x : Address} (hx : (a.entries x).IsLinked = true)
    (active : Bool) : a.update x active = (a.setEntry x { a.entries x with active }, true) := by
  simp [Authority.update, hx]

lemma Listed.update_of_singleton {x : Address} (h : Listed a [x]) (y : Address) (active : Bool) :
    a.update y active = (a, false) :=
  update_of_isLinked_eq_false (by rw [h.isLinked y]; by_cases hy : y = x <;> simp [hy]) active

end Steps

/-! ## Runs -/

inductive Op
  | add (nodeMaster endorsor : Address) (identity : Bytes32)
  | revoke (nodeMaster : Address)
  | update (nodeMaster : Address) (active : Bool)
deriving DecidableEq

def Op.apply (a : Authority) : Op → Authority × Bool
  | .add nodeMaster endorsor identity => a.add nodeMaster endorsor identity
  | .revoke nodeMaster => a.revoke nodeMaster
  | .update nodeMaster active => a.update nodeMaster active

/-- The calls one after another, with what each of them returned. -/
def run (a : Authority) : List Op → Authority × List Bool
  | [] => (a, [])
  | op :: ops => ((run (op.apply a).1 ops).1, (op.apply a).2 :: (run (op.apply a).1 ops).2)

/-- The listed masters after a call that returned `ok`: the added ones minus the revoked ones,
in the order of their addition. -/
def Op.listed (l : List Address) : Op × Bool → List Address
  | (.add nodeMaster _ _, true) => l ++ [nodeMaster]
  | (.revoke nodeMaster, true) => l.erase nodeMaster
  | _ => l

section Runs

variable {a : Authority} {l : List Address}

lemma Listed.apply (h : Listed a l) (op : Op)
    (hop : ∀ x e i, op = .add x e i → e ≠ Address.zero) :
    Listed (op.apply a).1 (Op.listed l (op, (op.apply a).2)) := by
  cases op with
  | add x e i =>
    cases hx : (a.entries x).IsEmpty
    · rw [Op.apply, add_of_isEmpty_eq_false e i hx]
      exact h
    · obtain ⟨hok, h'⟩ := h.add e i hx (hop x e i rfl)
      rw [Op.apply, hok]
      exact h'
  | revoke x =>
    by_cases hx : x ∈ l ∧ l ≠ [x]
    · obtain ⟨hok, h'⟩ := h.revoke hx.1 hx.2
      rw [Op.apply, hok]
      exact h'
    · rw [Op.apply, revoke_of_isLinked_eq_false (by simp [h.isLinked x, hx])]
      exact h
  | update x active =>
    by_cases hx : x ∈ l ∧ l ≠ [x]
    · obtain ⟨hok, h', -⟩ := h.update hx.1 hx.2 active
      rw [Op.apply, hok]
      exact h'
    · rw [Op.apply, update_of_isLinked_eq_false (by simp [h.isLinked x, hx])]
      exact h

lemma Listed.run (h : Listed a l) (ops : List Op)
    (hops : ∀ x e i, Op.add x e i ∈ ops → e ≠ Address.zero) :
    Listed (run a ops).1 ((ops.zip (run a ops).2).foldl Op.listed l) := by
  induction ops generalizing a l with
  | nil => exact h
  | cons op ops ih =>
    have h' := h.apply op fun x e i hop => hops x e i (hop ▸ List.mem_cons_self)
    exact ih h' fun x e i hm => hops x e i (List.mem_cons_of_mem _ hm)

end Runs

/-- Over every run of `Add`, `Revoke` and `Update` from the empty contract in which each
added endorsor is non-zero, the storage is a doubly linked list of the masters added and not
revoked since, which `AllCandidates` lists in order and `Get` reports as listed; `Revoke` and
`Update` succeed on exactly the listed masters that are not alone in the list. -/
theorem run_listed_revoke_update (ops : List Op) (a : Authority) (oks : List Bool)
    (hops : ∀ x e i, Op.add x e i ∈ ops → e ≠ Address.zero) (hrun : run new ops = (a, oks)) :
    ∃ l, l = (ops.zip oks).foldl Op.listed [] ∧ Listed a l ∧
      (a.allCandidates (l.length + 1)).map (List.map Candidate.nodeMaster) = some l ∧
      ∀ x, (a.get x).1 = decide (x ∈ l) ∧ (a.revoke x).2 = decide (x ∈ l ∧ l ≠ [x]) ∧
        ∀ active, (a.update x active).2 = decide (x ∈ l ∧ l ≠ [x]) := by
  have h := listed_new.run ops hops
  rw [hrun] at h
  dsimp only at h
  generalize (ops.zip oks).foldl Op.listed [] = l at h ⊢
  refine ⟨l, rfl, h, ?_, fun x => ⟨?_, ?_, fun active => ?_⟩⟩
  · rw [h.allCandidates (Nat.lt_succ_self _)]
    simp [candidateOf, Function.comp_def]
  · rw [h.get x]
  · by_cases hx : x ∈ l ∧ l ≠ [x]
    · rw [(h.revoke hx.1 hx.2).1, decide_eq_true hx]
    · rw [revoke_of_isLinked_eq_false (by simp [h.isLinked x, hx]), decide_eq_false hx]
  · by_cases hx : x ∈ l ∧ l ≠ [x]
    · rw [(h.update hx.1 hx.2 active).1, decide_eq_true hx]
    · rw [update_of_isLinked_eq_false (by simp [h.isLinked x, hx]), decide_eq_false hx]

theorem run_listed_revoke_update_one_master :
    ∃ a oks, run new [.add Address.zero ⟨List.replicate 19 0 ++ [1], rfl⟩ Bytes32.zero] =
        (a, oks) ∧
      (a.get Address.zero).1 = true ∧ (a.revoke Address.zero).2 = false ∧
      (a.update Address.zero false).2 = false := by
  refine ⟨_, _, rfl, ?_⟩
  obtain ⟨l, hl, -, -, hx⟩ := run_listed_revoke_update
    [.add Address.zero ⟨List.replicate 19 0 ++ [1], rfl⟩ Bytes32.zero] _ _
    (fun x e i hm => by simp at hm; rw [hm.2.1]; decide) rfl
  obtain ⟨hget, hrevoke, hupdate⟩ := hx Address.zero
  have hl1 : l = [Address.zero] := hl.trans rfl
  subst hl1
  exact ⟨by simpa using hget, by simpa using hrevoke, by simpa using hupdate false⟩

-- a zero endorsor lets a listed entry become empty: adding it again links it to itself
example :
    let a := (run new [.add Address.zero Address.zero Bytes32.zero,
      .add ⟨List.replicate 19 0 ++ [1], rfl⟩ ⟨List.replicate 19 0 ++ [1], rfl⟩ Bytes32.zero,
      .update Address.zero false, .revoke ⟨List.replicate 19 0 ++ [1], rfl⟩,
      .add Address.zero ⟨List.replicate 19 0 ++ [1], rfl⟩ Bytes32.zero]).1
    a.head = some Address.zero ∧ (a.entries Address.zero).prev = some Address.zero := by
  decide

end AuthorityBlock.Authority
