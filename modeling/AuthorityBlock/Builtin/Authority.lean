import AuthorityBlock.Ablock.Types
import AuthorityBlock.Lib.Walk

/-! The model of `builtin/authority`: the candidates of block proposers, kept as a doubly
linked list in the storage of the `Authority` contract. An entry is stored under its node
master, and the head and tail pointers under their own keys; storage that holds nothing reads
as the empty entry, which is also what `setEntry` stores for an empty one. Storage read errors
of the state are not modelled. -/

namespace AuthorityBlock.Authority

structure Entry where
  endorsor : Address
  identity : Bytes32
  active : Bool
  prev : Option Address
  next : Option Address
deriving DecidableEq

namespace Entry

def empty : Entry := ⟨Address.zero, Bytes32.zero, false, none, none⟩

def IsEmpty (e : Entry) : Bool :=
  e.endorsor.IsZero && e.identity.IsZero && !e.active && e.prev.isNone && e.next.isNone

def IsLinked (e : Entry) : Bool := e.prev.isSome || e.next.isSome

end Entry

structure Candidate where
  nodeMaster : Address
  endorsor : Address
  identity : Bytes32
  active : Bool
deriving DecidableEq

def candidateOf (nodeMaster : Address) (e : Entry) : Candidate :=
  ⟨nodeMaster, e.endorsor, e.identity, e.active⟩

end AuthorityBlock.Authority

namespace AuthorityBlock

open Authority

structure Authority where
  entries : Address → Entry
  head : Option Address
  tail : Option Address

namespace Authority

variable (a : Authority)

def new : Authority := ⟨fun _ => Entry.empty, none, none⟩

def setEntry (nodeMaster : Address) (e : Entry) : Authority :=
  { a with entries := Function.update a.entries nodeMaster e }

@[simp] lemma setEntry_entries (nodeMaster : Address) (e : Entry) (x : Address) :
    (a.setEntry nodeMaster e).entries x = if x = nodeMaster then e else a.entries x :=
  Function.update_apply _ _ _ _

@[simp] lemma setEntry_head (nodeMaster : Address) (e : Entry) :
    (a.setEntry nodeMaster e).head = a.head := rfl

@[simp] lemma setEntry_tail (nodeMaster : Address) (e : Entry) :
    (a.setEntry nodeMaster e).tail = a.tail := rfl

/-- `Get`: an unlinked entry is listed only as the head of a one-entry list. -/
def get (nodeMaster : Address) : Bool × Address × Bytes32 × Bool :=
  let e := a.entries nodeMaster
  if e.IsLinked then (true, e.endorsor, e.identity, e.active)
  else (a.head = some nodeMaster, e.endorsor, e.identity, e.active)

/-- `Add` appends at the tail; the new entry is written last, from the value read first. -/
def add (nodeMaster endorsor : Address) (identity : Bytes32) : Authority × Bool :=
  let e := a.entries nodeMaster
  if !e.IsEmpty then (a, false)
  else
    let entry : Entry := { e with endorsor, identity, active := true, prev := a.tail }
    let a₁ : Authority := { a with tail := some nodeMaster }
    let a₂ := match a.tail with
      | none => { a₁ with head := some nodeMaster }
      | some t => a₁.setEntry t { a₁.entries t with next := some nodeMaster }
    (a₂.setEntry nodeMaster entry, true)

/-- `Revoke` unlinks the entry and leaves it inactive, keeping its endorsor and identity. -/
def revoke (nodeMaster : Address) : Authority × Bool :=
  let e := a.entries nodeMaster
  if !e.IsLinked then (a, false)
  else
    let a₁ := match e.prev with
      | none => { a with head := e.next }
      | some p => a.setEntry p { a.entries p with next := e.next }
    let a₂ := match e.next with
      | none => { a₁ with tail := e.prev }
      | some n => a₁.setEntry n { a₁.entries n with prev := e.prev }
    (a₂.setEntry nodeMaster { e with next := none, prev := none, active := false }, true)

def update (nodeMaster : Address) (active : Bool) : Authority × Bool :=
  let e := a.entries nodeMaster
  if !e.IsLinked then (a, false)
  else (a.setEntry nodeMaster { e with active }, true)

/-- The loop of `Candidates`, for at most `fuel` steps: follow `next` from `ptr` while fewer
than `limit` candidates are kept, keeping those whose endorsor holds `endorsement`. -/
def candidatesLoop (balance : Address → ℕ) (endorsement limit : ℕ) :
    ℕ → Option Address → List Candidate → Option (List Candidate)
  | 0, _, _ => none
  | _ + 1, none, candidates => some candidates
  | fuel + 1, some ptr, candidates =>
    if candidates.length < limit then
      let e := a.entries ptr
      candidatesLoop balance endorsement limit fuel e.next
        (if balance e.endorsor ≥ endorsement then candidates ++ [candidateOf ptr e]
          else candidates)
    else some candidates

-- Go compares `uint64(len(candidates)) < limit`; a list's length is far below `2 ^ 64`
def candidates (balance : Address → ℕ) (endorsement : ℕ) (limit : UInt64) (fuel : ℕ) :
    Option (List Candidate) :=
  a.candidatesLoop balance endorsement limit.toNat fuel a.head []

def allCandidatesLoop : ℕ → Option Address → List Candidate → Option (List Candidate)
  | 0, _, _ => none
  | _ + 1, none, candidates => some candidates
  | fuel + 1, some ptr, candidates =>
    let e := a.entries ptr
    allCandidatesLoop fuel e.next (candidates ++ [candidateOf ptr e])

def allCandidates (fuel : ℕ) : Option (List Candidate) := a.allCandidatesLoop fuel a.head []

def first : Option Address := a.head

def next (nodeMaster : Address) : Option Address := (a.entries nodeMaster).next

lemma allCandidatesLoop_eq (fuel : ℕ) (ptr : Option Address) (acc : List Candidate) :
    a.allCandidatesLoop fuel ptr acc =
      (Walk.follow a.next fuel ptr).map fun l =>
        acc ++ l.map fun p => candidateOf p (a.entries p) := by
  induction fuel generalizing ptr acc with
  | zero => rfl
  | succ fuel ih =>
    cases ptr with
    | none => simp [allCandidatesLoop]
    | some p =>
      rw [allCandidatesLoop, ih, Walk.follow_some, Option.map_map]
      congr 1
      funext l
      simp

lemma candidatesLoop_eq (balance : Address → ℕ) (endorsement limit : ℕ) {fuel : ℕ}
    {ptr : Option Address} {l : List Address} (h : Walk.follow a.next fuel ptr = some l)
    (acc : List Candidate) :
    a.candidatesLoop balance endorsement limit fuel ptr acc =
      some ((l.map fun p => candidateOf p (a.entries p)).foldl
        (Walk.keep (fun c => decide (balance c.endorsor ≥ endorsement)) id limit) acc) := by
  induction fuel generalizing ptr acc l with
  | zero => cases h
  | succ fuel ih =>
    cases ptr with
    | none =>
      cases h
      rfl
    | some p =>
      obtain ⟨l', hl', rfl⟩ := Walk.follow_succ_of_some h
      have hnext : Walk.follow a.next fuel (a.entries p).next = some l' := hl'
      rw [candidatesLoop, List.map_cons, List.foldl_cons]
      dsimp only
      by_cases hlt : acc.length < limit
      · rw [if_pos hlt, ih hnext]
        congr 2
        by_cases hb : balance (a.entries p).endorsor ≥ endorsement <;>
          simp [Walk.keep, candidateOf, hb, hlt]
      · have hk : Walk.keep (fun c => decide (balance c.endorsor ≥ endorsement)) id limit acc
            (candidateOf p (a.entries p)) = acc := if_neg fun h => hlt h.1
        rw [if_neg hlt, hk, Walk.foldl_keep_of_le _ _ _ (by omega)]

lemma candidates_eq_of_allCandidates (balance : Address → ℕ) (endorsement : ℕ)
    (limit : UInt64) {fuel : ℕ} {all : List Candidate} (h : a.allCandidates fuel = some all) :
    a.candidates balance endorsement limit fuel =
      some ((all.filter fun c => decide (balance c.endorsor ≥ endorsement)).take
        limit.toNat) := by
  rw [allCandidates, allCandidatesLoop_eq, Option.map_eq_some_iff] at h
  obtain ⟨l, hl, rfl⟩ := h
  rw [candidates, a.candidatesLoop_eq balance endorsement _ hl,
    Walk.foldl_keep _ _ _ _ _ (by simp)]
  simp

end Authority

end AuthorityBlock
