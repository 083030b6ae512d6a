import AuthorityBlock.Builtin.Authority
import AuthorityBlock.Poa.Sched
import Mathlib

/-! The model of `poa/candidates.go`: the candidate list the consensus keeps in memory and
the proposers it picks from it. The Go object is shared between a cache and its copies and
updated copy-on-write; values here are immutable, so `referenced` only records the flag. -/

namespace AuthorityBlock.Poa

open Authority

/-- The clamp `Packer.Schedule` and `Candidates.Pick` both apply to `max-block-proposers`:
`big.Int.Uint64` keeps the low 64 bits, and zero or too many means the initial maximum. -/
def maxBlockProposersOf (mbp : ℕ) : UInt64 :=
  let maxBlockProposers := mbp.toUInt64
  if maxBlockProposers = 0 ∨ maxBlockProposers > InitialMaxBlockProposers then
    InitialMaxBlockProposers
  else maxBlockProposers

def proposerOf (c : Candidate) : Proposer := ⟨c.nodeMaster, c.active⟩

structure Candidates where
  list : List Candidate
  masters : Address → Option ℕ
  endorsors : Address → Bool
  satisfied : List ℕ
  referenced : Bool

def newCandidates (list : List Candidate) : Candidates :=
  ⟨list,
   -- the loop overwrites, so a node master listed twice maps to its last index
   list.zipIdx.foldl (fun masters ci => Function.update masters ci.1.nodeMaster (some ci.2))
     fun _ => none,
   fun addr => list.any fun c => c.endorsor = addr,
   [], false⟩

namespace Candidates

variable (c : Candidates)

def copy : Candidates := { c with referenced := true }

/-- The loop of `Pick` from index `i`: while fewer than `maxBlockProposers` are kept, keep
the indices of the candidates whose endorsor holds `endorsement`. -/
def pickLoop (balance : Address → ℕ) (endorsement maxBlockProposers : ℕ) :
    ℕ → List Candidate → List ℕ → List ℕ
  | _, [], satisfied => satisfied
  | i, cand :: rest, satisfied =>
    if satisfied.length < maxBlockProposers then
      pickLoop balance endorsement maxBlockProposers (i + 1) rest
        (if balance cand.endorsor ≥ endorsement then satisfied ++ [i] else satisfied)
    else satisfied

/-- `Pick`: an empty `satisfied` is picked again from the state's endorsement and
`max-block-proposers`, and cached. -/
def pick (balance : Address → ℕ) (endorsement mbp : ℕ) : Candidates × List Proposer :=
  let satisfied := if c.satisfied.length = 0 then
      pickLoop balance endorsement (maxBlockProposersOf mbp).toNat 0 c.list []
    else c.satisfied
  ({ c with satisfied }, satisfied.filterMap fun i => c.list[i]?.map proposerOf)

def update (addr : Address) (active : Bool) : Candidates × Bool :=
  match c.masters addr with
  | some i =>
    let list := c.list.modify i fun cand => { cand with active }
    ({ c with list, referenced := false }, true)
  | none => (c, false)

def isEndorsor (addr : Address) : Bool := c.endorsors addr

def invalidateCache : Candidates := { c with satisfied := [] }

lemma pickLoop_eq (balance : Address → ℕ) (endorsement maxBlockProposers : ℕ) :
    ∀ (i : ℕ) (l : List Candidate) (satisfied : List ℕ),
      pickLoop balance endorsement maxBlockProposers i l satisfied =
        (l.zipIdx i).foldl (Walk.keep (fun ci => decide (balance ci.1.endorsor ≥ endorsement))
          Prod.snd maxBlockProposers) satisfied
  | _, [], _ => rfl
  | i, cand :: rest, satisfied => by
    rw [pickLoop, List.zipIdx_cons, List.foldl_cons]
    by_cases hlt : satisfied.length < maxBlockProposers
    · rw [if_pos hlt, pickLoop_eq balance endorsement maxBlockProposers (i + 1) rest]
      congr 1
      by_cases hb : balance cand.endorsor ≥ endorsement <;> simp [Walk.keep, hb, hlt]
    · have hk : Walk.keep (fun ci => decide (balance ci.1.endorsor ≥ endorsement)) Prod.snd
          maxBlockProposers satisfied (cand, i) = satisfied := if_neg fun h => hlt h.1
      rw [if_neg hlt, hk, Walk.foldl_keep_of_le _ _ _ (by omega)]

lemma filterMap_take_zipIdx (l : List Candidate) (p : Candidate → Bool) (cap : ℕ) :
    ((((l.zipIdx.filter fun ci => p ci.1).map Prod.snd).take cap).filterMap
      fun i => l[i]?.map proposerOf) = ((l.filter p).take cap).map proposerOf := by
  have hfst : (l.zipIdx.filter fun ci => p ci.1).map Prod.fst = l.filter p := by
    change (l.zipIdx.filter (p ∘ Prod.fst)).map Prod.fst = _
    rw [← List.filter_map, List.zipIdx_map_fst]
  rw [← List.map_take, List.filterMap_map, ← hfst, ← List.map_take, List.map_map,
    ← List.filterMap_eq_map']
  refine List.filterMap_congr fun ci hci => ?_
  obtain ⟨hi, heq⟩ := List.mem_zipIdx' (List.mem_of_mem_filter (List.mem_of_mem_take hci))
  simp [List.getElem?_eq_getElem hi, heq]

lemma pick_newCandidates (list : List Candidate) (balance : Address → ℕ)
    (endorsement mbp : ℕ) :
    ((newCandidates list).pick balance endorsement mbp).2 =
      ((list.filter fun c => decide (balance c.endorsor ≥ endorsement)).take
        (maxBlockProposersOf mbp).toNat).map proposerOf := by
  simp only [pick, newCandidates, List.length_nil, if_true]
  rw [pickLoop_eq, Walk.foldl_keep _ _ _ _ _ (by simp)]
  simp only [List.length_nil, Nat.sub_zero, List.nil_append]
  exact filterMap_take_zipIdx list (fun c => decide (balance c.endorsor ≥ endorsement)) _

lemma isSome_masters_foldl (addr : Address) :
    ∀ (l : List (Candidate × ℕ)) (masters : Address → Option ℕ),
      (masters addr).isSome ∨ addr ∈ l.map (fun ci => ci.1.nodeMaster) →
      ((l.foldl (fun (masters : Address → Option ℕ) (ci : Candidate × ℕ) =>
        Function.update masters ci.1.nodeMaster (some ci.2)) masters) addr).isSome
  | [], _, h => by simpa using h
  | ci :: l, masters, h => by
    refine isSome_masters_foldl addr l _ ?_
    by_cases hci : addr = ci.1.nodeMaster
    · left
      simp [hci]
    · rcases h with h | h
      · left
        show (Function.update masters ci.1.nodeMaster (some ci.2) addr).isSome
        rwa [Function.update_of_ne hci]
      · rcases List.mem_cons.mp h with h | h
        · exact absurd h hci
        · exact Or.inr h

lemma isSome_masters_newCandidates {l : List Candidate} {addr : Address}
    (h : addr ∈ l.map Candidate.nodeMaster) : ((newCandidates l).masters addr).isSome := by
  refine isSome_masters_foldl addr l.zipIdx _ (Or.inr ?_)
  rwa [show (fun ci : Candidate × ℕ => ci.1.nodeMaster) = Candidate.nodeMaster ∘ Prod.fst
    from rfl, ← List.map_map, List.zipIdx_map_fst]

lemma pick_masters (balance : Address → ℕ) (endorsement mbp : ℕ) :
    (c.pick balance endorsement mbp).1.masters = c.masters := rfl

lemma update_of_isSome {addr : Address} (active : Bool) (h : (c.masters addr).isSome) :
    ∃ c', c.update addr active = (c', true) ∧ c'.masters = c.masters := by
  obtain ⟨i, hi⟩ := Option.isSome_iff_exists.mp h
  refine ⟨(c.update addr active).1, ?_, ?_⟩ <;> simp [update, hi]

lemma pickLoop_congr {balance balance' : Address → ℕ} (endorsement maxBlockProposers : ℕ) :
    ∀ (i : ℕ) (l l' : List Candidate) (satisfied : List ℕ),
      l.map Candidate.endorsor = l'.map Candidate.endorsor →
      (∀ cand ∈ l, balance cand.endorsor = balance' cand.endorsor) →
      pickLoop balance endorsement maxBlockProposers i l satisfied =
        pickLoop balance' endorsement maxBlockProposers i l' satisfied
  | _, [], [], _, _, _ => rfl
  | i, cand :: l, cand' :: l', satisfied, he, hb => by
    simp only [List.map_cons, List.cons.injEq] at he
    have hcand : balance cand.endorsor = balance' cand'.endorsor :=
      he.1 ▸ hb cand List.mem_cons_self
    rw [pickLoop, pickLoop, hcand, pickLoop_congr endorsement maxBlockProposers (i + 1) l l' _ he.2
      fun c hc => hb c (List.mem_cons_of_mem cand hc)]

lemma masters_newCandidates (list : List Candidate) :
    (newCandidates list).masters = (list.map Candidate.nodeMaster).zipIdx.foldl
      (fun (masters : Address → Option ℕ) (xi : Address × ℕ) =>
        Function.update masters xi.1 (some xi.2)) fun _ => none := by
  rw [newCandidates, List.zipIdx_map, List.foldl_map]
  rfl

lemma getElem?_of_masters {list : List Candidate} {x : Address} {i : ℕ}
    (h : (newCandidates list).masters x = some i) :
    list[i]?.map Candidate.nodeMaster = some x := by
  have key : ∀ (ps : List (Address × ℕ)) (masters : Address → Option ℕ),
      (∀ xi ∈ ps, (list.map Candidate.nodeMaster)[xi.2]? = some xi.1) →
      (∀ y j, masters y = some j → (list.map Candidate.nodeMaster)[j]? = some y) →
      ∀ y j, ps.foldl (fun (masters : Address → Option ℕ) (xi : Address × ℕ) =>
        Function.update masters xi.1 (some xi.2)) masters y =
        some j → (list.map Candidate.nodeMaster)[j]? = some y := by
    intro ps
    induction ps with
    | nil => exact fun _ _ hm => hm
    | cons xi ps ih =>
      intro masters hps hm
      refine ih _ (fun xj hxj => hps xj (List.mem_cons_of_mem xi hxj)) fun y j hy => ?_
      dsimp only at hy
      by_cases hyx : y = xi.1
      · subst hyx
        rw [Function.update_self, Option.some_inj] at hy
        exact hy ▸ hps xi List.mem_cons_self
      · rw [Function.update_of_ne hyx] at hy
        exact hm y j hy
  rw [masters_newCandidates] at h
  have := key _ _ (fun xi hxi => by
    obtain ⟨hi, heq⟩ := List.mem_zipIdx' hxi
    simp [List.getElem?_eq_getElem hi, heq]) (fun _ _ h => by simp at h) x i h
  simpa [List.getElem?_map] using this

lemma endorsors_newCandidates (list : List Candidate) :
    (newCandidates list).endorsors = fun addr => (list.map Candidate.endorsor).any (· = addr) := by
  funext addr
  simp [newCandidates, List.any_map, Function.comp_def]

lemma update_eq_of_masters {addr : Address} {i : ℕ} (h : c.masters addr = some i)
    (active : Bool) :
    c.update addr active =
      ({ c with list := c.list.modify i fun cand => { cand with active }, referenced := false },
        true) := by
  simp [update, h]

end Candidates

end AuthorityBlock.Poa
