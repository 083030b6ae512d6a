import AuthorityBlock.Consensus.Validator
import AuthorityBlock.Builtin.AuthorityList
import AuthorityBlock.Poa.Updates
import Mathlib

/-! The candidates cache of `Consensus.validate` in `consensus/validator.go`. After a block's
transactions have run, the candidate list `validateProposer` returned is cached under the
block's ID unless an event came from the `Authority` contract, and its `Pick` result is
dropped when an event came from the `Params` contract or a transfer moved value from or to an
endorsor. The cached list agrees with the list the state's `Authority` contract holds, but for
the flag of a master alone in the list: `Authority.Update` leaves that entry as it is, since it
is not linked, while `Candidates.Update` sets its flag. -/

namespace AuthorityBlock.Consensus

open Poa Authority

/-! ## What `validate` reads of the receipts -/

structure Event where
  address : Address

structure Transfer where
  sender : Address
  recipient : Address

structure Output where
  events : List Event
  transfers : List Transfer

structure Receipt where
  outputs : List Output

/-- `mustLoadContract` places a builtin contract at the address made of its name's bytes. -/
def builtinAddress (name : String) : Address := BytesToAddress name.toUTF8.toList

def authorityAddress : Address := builtinAddress "Authority"

def paramsAddress : Address := builtinAddress "Params"

def hasAuthorityEvent (receipts : List Receipt) : Bool :=
  receipts.any fun r => r.outputs.any fun o =>
    o.events.any fun ev => ev.address == authorityAddress

def hasEndorsorEvent (candidates : Candidates) (receipts : List Receipt) : Bool :=
  receipts.any fun r => r.outputs.any fun o =>
    o.events.any (fun ev => ev.address == paramsAddress) ||
      o.transfers.any fun t => candidates.isEndorsor t.sender || candidates.isEndorsor t.recipient

/-- The end of `validate`: `candidatesCache.Add(header.ID(), candidates)` unless an event came
from the `Authority` contract. -/
def cacheCandidates (cache : Bytes32 → Option Candidates) (id : Bytes32)
    (candidates : Candidates) (receipts : List Receipt) : Bytes32 → Option Candidates :=
  if !hasAuthorityEvent receipts then
    Function.update cache id
      (some (if hasEndorsorEvent candidates receipts then candidates.invalidateCache
        else candidates))
  else cache

lemma cacheCandidates_of_ne {cache : Bytes32 → Option Candidates} {id id' : Bytes32}
    (candidates : Candidates) (receipts : List Receipt) (h : id' ≠ id) :
    cacheCandidates cache id candidates receipts id' = cache id' := by
  unfold cacheCandidates
  split_ifs <;> simp [h]

lemma cacheCandidates_self {cache : Bytes32 → Option Candidates} (id : Bytes32)
    (candidates : Candidates) {receipts : List Receipt}
    (hno : hasAuthorityEvent receipts = false) :
    cacheCandidates cache id candidates receipts id =
      some (if hasEndorsorEvent candidates receipts then candidates.invalidateCache
        else candidates) := by
  simp [cacheCandidates, hno]

lemma cacheCandidates_of_hasAuthorityEvent {cache : Bytes32 → Option Candidates} (id : Bytes32)
    (candidates : Candidates) {receipts : List Receipt} (h : hasAuthorityEvent receipts = true) :
    cacheCandidates cache id candidates receipts = cache := by
  simp [cacheCandidates, h]

/-! ## What the transactions of a block are assumed to do -/

/-- A transfer of the receipts moves value from or to `addr`. -/
def Transferred (receipts : List Receipt) (addr : Address) : Prop :=
  ∃ r ∈ receipts, ∃ o ∈ r.outputs, ∃ t ∈ o.transfers, t.sender = addr ∨ t.recipient = addr

/-- An event of the receipts came from the `Params` contract. -/
def ParamsEvent (receipts : List Receipt) : Prop :=
  ∃ r ∈ receipts, ∃ o ∈ r.outputs, ∃ ev ∈ o.events, ev.address = paramsAddress

/-- The transactions of a block take the state `st` that `validateProposer` left to `st'`,
with `receipts`. They drive the `Authority` contract through its calls; every change of its
storage emits an event from it, and every change of an endorsor's balance is a transfer. A
param changes only through the `Params` contract's `set`, which emits `Set`. -/
structure Runtime (st st' : StateView) (receipts : List Receipt) : Prop where
  ops : ∃ ops : List Op, (∀ x e i, Op.add x e i ∈ ops → e ≠ Address.zero) ∧
    (Authority.run st.authority ops).1 = st'.authority
  authority : hasAuthorityEvent receipts = false → st'.authority = st.authority
  balance : ∀ l, Listed st.authority l → ∀ p ∈ l,
    st'.balance (st.authority.entries p).endorsor ≠ st.balance (st.authority.entries p).endorsor →
      Transferred receipts (st.authority.entries p).endorsor
  params : st'.endorsement ≠ st.endorsement ∨ st'.maxBlockProposers ≠ st.maxBlockProposers →
    ParamsEvent receipts

lemma hasEndorsorEvent_eq_false {c : Candidates} {receipts : List Receipt}
    (h : hasEndorsorEvent c receipts = false) :
    ¬ ParamsEvent receipts ∧ ∀ addr, c.isEndorsor addr = true → ¬ Transferred receipts addr := by
  simp only [hasEndorsorEvent, List.any_eq_false, Bool.or_eq_true, List.any_eq_true, beq_iff_eq,
    not_or, not_exists, not_and] at h
  refine ⟨fun ⟨r, hr, o, ho, ev, hev, heq⟩ => (h r hr o ho).1 ev hev heq,
    fun addr he ⟨r, hr, o, ho, t, ht, heq⟩ => ?_⟩
  have hnot := (h r hr o ho).2 t ht
  rcases heq with rfl | rfl
  · exact hnot.1 he
  · exact hnot.2 he

/-! ## The cached list agrees with the contract -/

/-- The list a cached `Candidates` holds is `fresh`, but for the flag of a candidate alone in
the list. -/
def ListAgrees (list fresh : List Candidate) : Prop :=
  list = fresh ∨ ∃ cand active, fresh = [cand] ∧ list = [{ cand with active }]

lemma ListAgrees.map_eq {list fresh : List Candidate} (h : ListAgrees list fresh) {β : Type}
    (f : Candidate → β) (hf : ∀ cand active, f { cand with active } = f cand) :
    list.map f = fresh.map f := by
  rcases h with rfl | ⟨cand, active, rfl, rfl⟩
  · rfl
  · simp [hf]

@[simp] lemma map_nodeMaster_listedCandidates (a : Authority) (l : List Address) :
    (listedCandidates a l).map Candidate.nodeMaster = l := by
  simp [listedCandidates, candidateOf, Function.comp_def]

/-- `c` agrees with the state `st`, whose `Authority` contract holds the masters `l`: its
list, masters and endorsors are those of `NewCandidates(AllCandidates())` on `st` but for a
lone master's flag, and its `Pick` result, if it holds one, is the one `st` gives. -/
structure Agrees (c : Candidates) (st : StateView) (l : List Address) : Prop where
  listed : Listed st.authority l
  list : ListAgrees c.list (listedCandidates st.authority l)
  masters : c.masters = (newCandidates (listedCandidates st.authority l)).masters
  endorsors : c.endorsors = (newCandidates (listedCandidates st.authority l)).endorsors
  satisfied : c.satisfied = [] ∨ c.satisfied = Candidates.pickLoop st.balance st.endorsement
    (maxBlockProposersOf st.maxBlockProposers).toNat 0 c.list []

section Agrees

variable {c : Candidates} {st : StateView} {l : List Address}

lemma agrees_newCandidates (h : Listed st.authority l) :
    Agrees (newCandidates (listedCandidates st.authority l)) st l :=
  ⟨h, .inl rfl, rfl, rfl, .inl rfl⟩

lemma Agrees.copy (h : Agrees c st l) : Agrees c.copy st l :=
  ⟨h.listed, h.list, h.masters, h.endorsors, h.satisfied⟩

lemma Agrees.pick_satisfied (h : Agrees c st l) :
    (c.pick st.balance st.endorsement st.maxBlockProposers).1.satisfied =
      Candidates.pickLoop st.balance st.endorsement
        (maxBlockProposersOf st.maxBlockProposers).toNat 0 c.list [] := by
  simp only [Candidates.pick]
  split_ifs with hs
  · rfl
  · exact h.satisfied.resolve_left fun h0 => hs (by rw [h0]; rfl)

lemma Agrees.pick (h : Agrees c st l) :
    Agrees (c.pick st.balance st.endorsement st.maxBlockProposers).1 st l :=
  ⟨h.listed, h.list, h.masters, h.endorsors, .inr h.pick_satisfied⟩

lemma Agrees.pick_eq (h : Agrees c st l) :
    (c.pick st.balance st.endorsement st.maxBlockProposers).2 =
      ((newCandidates c.list).pick st.balance st.endorsement st.maxBlockProposers).2 := by
  have hs := h.pick_satisfied
  simp only [Candidates.pick] at hs ⊢
  rw [hs]
  rfl

lemma pickLoop_of_map_endorsor {list list' : List Candidate}
    (he : list'.map Candidate.endorsor = list.map Candidate.endorsor) (st : StateView) :
    Candidates.pickLoop st.balance st.endorsement
        (maxBlockProposersOf st.maxBlockProposers).toNat 0 list' [] =
      Candidates.pickLoop st.balance st.endorsement
        (maxBlockProposersOf st.maxBlockProposers).toNat 0 list [] :=
  Candidates.pickLoop_congr _ _ 0 list' list [] he fun _ _ => rfl

lemma Agrees.update (h : Agrees c st l) {x : Address} {active : Bool} {c' : Candidates}
    (hc : c.update x active = (c', true)) :
    Agrees c' { st with authority := (st.authority.update x active).1 } l := by
  obtain ⟨i, hi⟩ : ∃ i, c.masters x = some i := by
    cases hm : c.masters x with
    | none => simp [Candidates.update, hm] at hc
    | some i => exact ⟨i, rfl⟩
  rw [c.update_eq_of_masters hi active, Prod.mk.injEq] at hc
  obtain ⟨rfl, -⟩ := hc
  have hget : (listedCandidates st.authority l)[i]?.map Candidate.nodeMaster = some x :=
    Candidates.getElem?_of_masters (h.masters ▸ hi)
  have hxl : x ∈ l := by
    obtain ⟨cand, hcand, hcx⟩ := Option.map_eq_some_iff.mp hget
    rw [← map_nodeMaster_listedCandidates st.authority l, ← hcx]
    exact List.mem_map_of_mem (List.mem_of_getElem? hcand)
  have hend : (c.list.modify i fun cand => { cand with active }).map Candidate.endorsor =
      c.list.map Candidate.endorsor :=
    LinkedList.map_modify_of_forall (g := Candidate.endorsor)
      (f := fun cand => { cand with active }) (fun _ => rfl) c.list i
  have hsat := h.satisfied
  rw [← pickLoop_of_map_endorsor hend st] at hsat
  by_cases hlone : l = [x]
  · -- the contract keeps the lone entry; only the list sets its flag
    subst hlone
    rw [h.listed.update_of_singleton x active]
    refine ⟨h.listed, .inr ?_, h.masters, h.endorsors, hsat⟩
    have hi0 : i = 0 := by
      have := List.getElem?_eq_some_iff.mp (Option.map_eq_some_iff.mp hget).choose_spec.1
      simpa [listedCandidates] using this.1
    subst hi0
    refine ⟨candidateOf x (st.authority.entries x), active, rfl, ?_⟩
    rcases h.list with hl | ⟨cand, b, hfresh, hl⟩
    · rw [hl]
      rfl
    · have : cand = candidateOf x (st.authority.entries x) := by
        simpa [listedCandidates] using hfresh.symm
      rw [hl, this]
      rfl
  · -- the contract sets the flag of a linked entry, and the list of the same master
    have hlinked : (st.authority.entries x).IsLinked = true := by
      rw [h.listed.isLinked x]
      exact decide_eq_true ⟨hxl, hlone⟩
    have hlisted := (h.listed.update hxl hlone active).2.1
    rw [update_of_isLinked_eq_true hlinked] at hlisted ⊢
    have hsame : c.list = listedCandidates st.authority l := by
      rcases h.list with hl | ⟨cand, b, hfresh, -⟩
      · exact hl
      · have hl1 := congrArg (List.map Candidate.nodeMaster) hfresh
        simp only [map_nodeMaster_listedCandidates, List.map_cons, List.map_nil] at hl1
        rw [hl1, List.mem_singleton] at hxl
        exact absurd (hxl ▸ hl1) hlone
    have hfresh' : listedCandidates (st.authority.setEntry x
        { st.authority.entries x with active }) l =
        (listedCandidates st.authority l).map fun cand =>
          if cand.nodeMaster = x then { cand with active } else cand := by
      simp only [listedCandidates, List.map_map]
      refine List.map_congr_left fun p _ => ?_
      by_cases hp : p = x
      · subst hp
        simp [candidateOf]
      · simp [candidateOf, hp]
    have hnd : ((listedCandidates st.authority l).map Candidate.nodeMaster).Nodup := by
      rw [map_nodeMaster_listedCandidates]
      exact h.listed.links.nodup
    have hlist : c.list.modify i (fun cand => { cand with active }) =
        listedCandidates (st.authority.setEntry x { st.authority.entries x with active }) l := by
      rw [hsame, LinkedList.modify_eq_map_of_nodup _ hnd hget, hfresh']
    refine ⟨hlisted, .inl hlist, ?_, ?_, hsat⟩
    · rw [h.masters, Candidates.masters_newCandidates, Candidates.masters_newCandidates,
        map_nodeMaster_listedCandidates, map_nodeMaster_listedCandidates]
    · rw [h.endorsors, Candidates.endorsors_newCandidates, Candidates.endorsors_newCandidates,
        ← hlist, ← hsame, hend]

lemma Agrees.applyUpdates :
    ∀ {c : Candidates} {st : StateView} {us : List Proposer} {r : Authority × Candidates},
      Agrees c st l → applyUpdates st.authority c us = some r →
        Agrees r.2 { st with authority := r.1 } l
  | _, _, [], _, h, hr => by
    cases hr
    exact h
  | c, _, u :: us, _, h, hr => by
    rw [Consensus.applyUpdates] at hr
    split at hr
    · rename_i c' hc
      have hrest := Agrees.applyUpdates (h.update hc) hr
      exact hrest
    · cases hr

lemma Agrees.runtime (h : Agrees c st l) {st' : StateView} {receipts : List Receipt}
    (hrt : Runtime st st' receipts) (hno : hasAuthorityEvent receipts = false) :
    Agrees (if hasEndorsorEvent c receipts then c.invalidateCache else c) st' l := by
  have ha := hrt.authority hno
  have hfresh : listedCandidates st'.authority l = listedCandidates st.authority l := by
    rw [ha]
  split_ifs with hev
  · exact ⟨ha ▸ h.listed, hfresh ▸ h.list, hfresh ▸ h.masters, hfresh ▸ h.endorsors, .inl rfl⟩
  refine ⟨ha ▸ h.listed, hfresh ▸ h.list, hfresh ▸ h.masters, hfresh ▸ h.endorsors, ?_⟩
  obtain ⟨hparams, htransfer⟩ := hasEndorsorEvent_eq_false (Bool.not_eq_true _ ▸ hev)
  have hend : st'.endorsement = st.endorsement ∧ st'.maxBlockProposers = st.maxBlockProposers := by
    by_contra hne
    exact hparams (hrt.params (not_and_or.mp hne))
  -- every endorsor of the list is an endorsor of `c`, so no transfer moved its balance
  have hbal : ∀ cand ∈ c.list, st.balance cand.endorsor = st'.balance cand.endorsor := by
    intro cand hcand
    have hmem : cand.endorsor ∈ (listedCandidates st.authority l).map Candidate.endorsor := by
      rw [← h.list.map_eq Candidate.endorsor fun _ _ => rfl]
      exact List.mem_map_of_mem hcand
    obtain ⟨p, hp, hpe⟩ : ∃ p ∈ l, (st.authority.entries p).endorsor = cand.endorsor := by
      simpa [listedCandidates, candidateOf] using hmem
    have hisEnd : c.isEndorsor cand.endorsor = true := by
      rw [Candidates.isEndorsor, h.endorsors, Candidates.endorsors_newCandidates]
      simpa using hmem
    by_contra hne
    exact htransfer _ hisEnd (hpe ▸ hrt.balance l h.listed p hp (hpe ▸ Ne.symm hne))
  rcases h.satisfied with h0 | hs
  · exact .inl h0
  · refine .inr (hs.trans ?_)
    rw [hend.1, hend.2]
    exact Candidates.pickLoop_congr _ _ 0 c.list c.list [] rfl hbal

end Agrees

lemma agrees_validateProposer {header parent : Block.Header} {st : StateView}
    {cached : Option Candidates} {vip214 : UInt32}
    {seeder : Bytes32 → Except String (List UInt8)} {fuel : ℕ} {r : Authority × Candidates}
    {l : List Address}
    (hcached : match cached with
      | some c => Agrees c st l
      | none => Listed st.authority l)
    (hv : validateProposer header parent st cached vip214 seeder fuel = some (.ok r)) :
    Agrees r.2 { st with authority := r.1 } l := by
  obtain ⟨-, c, sched, -, hc, -, -, happly⟩ := validateProposer_eq_ok_inv hv
  have h : Agrees c st l := by
    cases cached with
    | some c' =>
      cases hc
      exact hcached.copy
    | none =>
      obtain ⟨all, hall, rfl⟩ := Option.map_eq_some_iff.mp hc
      rw [hcached.allCandidates_eq_some hall]
      exact agrees_newCandidates hcached
  exact h.pick.applyUpdates happly

/-! ## Runs of a node -/

/-- What a node keeps: the candidates cache, and the state after each block it validated. -/
structure Node where
  cache : Bytes32 → Option Candidates
  states : Bytes32 → Option StateView

/-- A node that holds the genesis state alone, with an empty cache. -/
def Node.init (genesisID : Bytes32) (genesis : StateView) : Node :=
  ⟨fun _ => none, Function.update (fun _ => none) genesisID (some genesis)⟩

section Runs

variable (vip214 : UInt32) (seeder : Bytes32 → Except String (List UInt8)) (fuel : ℕ)

/-- A node validates a new block whose parent it holds, runs its transactions and caches its
candidate list; or the cache, an LRU of 16 entries, drops an entry. -/
inductive Step : Node → Node → Prop
  | validate {n : Node} {header parent : Block.Header} {st st' : StateView}
      {r : Authority × Candidates} {receipts : List Receipt}
      (hnew : n.states header.id = none) (hst : n.states parent.id = some st)
      (hv : validateProposer header parent st (n.cache parent.id) vip214 seeder fuel =
        some (.ok r))
      (hrt : Runtime { st with authority := r.1 } st' receipts) :
      Step n ⟨cacheCandidates n.cache header.id r.2 receipts,
        Function.update n.states header.id (some st')⟩
  | evict {n : Node} (id : Bytes32) : Step n { n with cache := Function.update n.cache id none }

/-- Every state the node holds has a well-formed `Authority` list, and every cached list
agrees with the state after its block. -/
structure NodeInv (n : Node) : Prop where
  listed : ∀ id st, n.states id = some st → ∃ l, Listed st.authority l
  agrees : ∀ id c, n.cache id = some c → ∃ st l, n.states id = some st ∧ Agrees c st l

lemma nodeInv_init (genesisID : Bytes32) {genesis : StateView} {l : List Address}
    (hl : Listed genesis.authority l) : NodeInv (Node.init genesisID genesis) where
  listed id st hst := by
    by_cases hid : id = genesisID
    · subst hid
      simp only [Node.init, Function.update_self, Option.some.injEq] at hst
      exact ⟨l, hst ▸ hl⟩
    · simp [Node.init, hid] at hst
  agrees _ _ hc := by simp [Node.init] at hc

variable {vip214 seeder fuel}

/-- Validating a block keeps the invariant: the new state's list is well formed, and the list
cached for the block agrees with it. -/
lemma NodeInv.validate {n : Node} {header parent : Block.Header} {st st' : StateView}
    {r : Authority × Candidates} {receipts : List Receipt} (hi : NodeInv n)
    (hnew : n.states header.id = none) (hst : n.states parent.id = some st)
    (hv : validateProposer header parent st (n.cache parent.id) vip214 seeder fuel =
      some (.ok r))
    (hrt : Runtime { st with authority := r.1 } st' receipts) :
    NodeInv ⟨cacheCandidates n.cache header.id r.2 receipts,
      Function.update n.states header.id (some st')⟩ := by
  -- the parent's list, taken from its cached entry if there is one
  obtain ⟨l, hagree⟩ : ∃ l, Agrees r.2 { st with authority := r.1 } l := by
    cases hc : n.cache parent.id with
    | some c =>
      obtain ⟨st₂, l, hst₂, h⟩ := hi.agrees parent.id c hc
      rw [hst, Option.some_inj] at hst₂
      subst hst₂
      rw [hc] at hv
      exact ⟨l, agrees_validateProposer h hv⟩
    | none =>
      obtain ⟨l, hl⟩ := hi.listed parent.id st hst
      rw [hc] at hv
      exact ⟨l, agrees_validateProposer hl hv⟩
  have hcache_new : n.cache header.id = none := by
    cases hc : n.cache header.id with
    | none => rfl
    | some c =>
      obtain ⟨_, _, hs, -⟩ := hi.agrees header.id c hc
      rw [hnew] at hs
      cases hs
  obtain ⟨ops, hops, hrun⟩ := hrt.ops
  constructor
  · intro id st₂ hst₂
    dsimp only at hst₂
    by_cases hid : id = header.id
    · subst hid
      rw [Function.update_self, Option.some_inj] at hst₂
      subst hst₂
      exact ⟨_, hrun ▸ hagree.listed.run ops hops⟩
    · rw [Function.update_of_ne hid] at hst₂
      exact hi.listed id st₂ hst₂
  · intro id c hc
    dsimp only at hc
    by_cases hid : id = header.id
    · subst hid
      cases hno : hasAuthorityEvent receipts with
      | false =>
        rw [cacheCandidates_self _ _ hno, Option.some_inj] at hc
        subst hc
        exact ⟨st', l, by simp, hagree.runtime hrt hno⟩
      | true =>
        rw [cacheCandidates_of_hasAuthorityEvent _ _ hno, hcache_new] at hc
        cases hc
    · rw [cacheCandidates_of_ne _ _ hid] at hc
      obtain ⟨st₂, l₂, hs, h⟩ := hi.agrees id c hc
      exact ⟨st₂, l₂, by simpa [Function.update_of_ne hid] using hs, h⟩

lemma NodeInv.step {n n' : Node} (hi : NodeInv n) (hs : Step vip214 seeder fuel n n') :
    NodeInv n' := by
  cases hs with
  | validate hnew hst hv hrt => exact hi.validate hnew hst hv hrt
  | evict id =>
    refine ⟨hi.listed, fun id' c hc => ?_⟩
    by_cases hid : id' = id
    · subst hid
      simp at hc
    · exact hi.agrees id' c (by simpa [Function.update_of_ne hid] using hc)

lemma NodeInv.run {n n' : Node} (hi : NodeInv n)
    (hrun : Relation.ReflTransGen (Step vip214 seeder fuel) n n') : NodeInv n' := by
  induction hrun with
  | refl => exact hi
  | tail _ hs ih => exact ih.step hs

/-- On every run of a node from the genesis state, each cached list agrees with the state
after its block, but for the flag of a master alone in the list, and its `Pick` returns what a
fresh `NewCandidates` of the same candidates returns on that state. -/
theorem cache_agrees_run (genesisID : Bytes32) {genesis : StateView} {l₀ : List Address}
    (hl₀ : Listed genesis.authority l₀) {n : Node}
    (hrun : Relation.ReflTransGen (Step vip214 seeder fuel) (Node.init genesisID genesis) n)
    {id : Bytes32} {c : Candidates} (hc : n.cache id = some c) :
    ∃ st l, n.states id = some st ∧ Listed st.authority l ∧
      ListAgrees c.list (listedCandidates st.authority l) ∧
      c.masters = (newCandidates (listedCandidates st.authority l)).masters ∧
      c.endorsors = (newCandidates (listedCandidates st.authority l)).endorsors ∧
      (c.pick st.balance st.endorsement st.maxBlockProposers).2 =
        ((newCandidates c.list).pick st.balance st.endorsement st.maxBlockProposers).2 := by
  obtain ⟨st, l, hst, h⟩ := ((nodeInv_init genesisID hl₀).run hrun).agrees id c hc
  exact ⟨st, l, hst, h.listed, h.list, h.masters, h.endorsors, h.pick_eq⟩

end Runs

/-! ## A master alone in the list -/

lemma updates_of_newScheduler {signer : Address} {proposers : List Proposer}
    {header parent : Block.Header} {vip214 : UInt32}
    {seeder : Bytes32 → Except String (List UInt8)} {sched : Scheduler} {t : UInt64}
    (h : newScheduler signer proposers header parent vip214 seeder = .ok sched)
    (ht : sched.isTheTime t) :
    ∃ p d, listedAs signer proposers = some p ∧ (sched.updates t).1 = d ++ activation p := by
  unfold newScheduler at h
  split_ifs at h
  · split at h
    · rename_i s hs
      cases h
      obtain ⟨d, hd, -⟩ := s.updates_spec ht
      exact ⟨s.proposer, d, newSchedulerV1_listedAs hs, hd⟩
    · cases h
  · split at h
    · cases h
    · split at h
      · rename_i s hs
        cases h
        exact ⟨s.proposer, _, newSchedulerV2_listedAs hs, congrArg Prod.fst (s.updates_eq ht)⟩
      · cases h

lemma applyUpdates_singleton {a : Authority} {x : Address} (hl : Listed a [x]) :
    ∀ {c : Candidates} {us : List Proposer} {r : Authority × Candidates},
      applyUpdates a c us = some r → r.1 = a
  | _, [], _, hr => by
    cases hr
    rfl
  | c, u :: us, _, hr => by
    rw [applyUpdates, hl.update_of_singleton] at hr
    split at hr
    · exact applyUpdates_singleton hl hr
    · cases hr

lemma applyUpdates_append_singleton (u : Proposer) :
    ∀ {a : Authority} {c : Candidates} {us : List Proposer} {r : Authority × Candidates},
      applyUpdates a c (us ++ [u]) = some r →
        ∃ a' c', applyUpdates a c us = some (a', c') ∧ c'.update u.address u.active = (r.2, true)
  | a, c, [], r, hr => by
    rw [List.nil_append, applyUpdates] at hr
    split at hr
    · rename_i c' hc
      cases hr
      exact ⟨a, c, rfl, hc⟩
    · cases hr
  | a, c, v :: us, r, hr => by
    rw [List.cons_append, applyUpdates] at hr
    split at hr
    · rename_i c' hc
      obtain ⟨a'', c'', hpre, hlast⟩ := applyUpdates_append_singleton u hr
      exact ⟨a'', c'', by rw [applyUpdates, hc]; exact hpre, hlast⟩
    · cases hr

lemma pick_newCandidates_singleton (cand : Candidate) (active : Bool) (balance : Address → ℕ)
    (endorsement mbp : ℕ) :
    ((newCandidates [{ cand with active }]).pick balance endorsement mbp).2 =
      ((newCandidates [cand]).pick balance endorsement mbp).2.map fun p => { p with active } := by
  rw [Candidates.pick_newCandidates, Candidates.pick_newCandidates]
  by_cases hb : balance cand.endorsor ≥ endorsement
  · cases (maxBlockProposersOf mbp).toNat <;> simp [hb, proposerOf]
  · simp [hb]

/-- A master alone in the `Authority` list and inactive, whose block `validateProposer`
accepts with no list cached for the parent: the scheduler activates it, which the contract
ignores, as the entry is not linked, while the list sets its flag. When the block's
transactions leave the contract alone, the list `validate` caches for the block lists the
master as active, the state's `AllCandidates` as inactive, and the cached `Pick` returns the
master as active where a fresh `Pick` returns it inactive. -/
theorem validate_caches_lone_master_active {vip214 : UInt32}
    {seeder : Bytes32 → Except String (List UInt8)} {fuel : ℕ}
    {cache : Bytes32 → Option Candidates} {header parent : Block.Header} {st st' : StateView}
    {r : Authority × Candidates} {receipts : List Receipt} {x : Address}
    (hcold : cache parent.id = none) (hl : Listed st.authority [x])
    (hx : (st.authority.entries x).active = false)
    (hv : validateProposer header parent st (cache parent.id) vip214 seeder fuel = some (.ok r))
    (hrt : Runtime { st with authority := r.1 } st' receipts)
    (hno : hasAuthorityEvent receipts = false) :
    st'.authority = st.authority ∧
    st'.authority.allCandidates 2 = some [candidateOf x (st.authority.entries x)] ∧
    ∃ c, cacheCandidates cache header.id r.2 receipts header.id = some c ∧
      c.list = [{ candidateOf x (st.authority.entries x) with active := true }] ∧
      (c.pick st'.balance st'.endorsement st'.maxBlockProposers).2 =
        ((newCandidates [candidateOf x (st.authority.entries x)]).pick st'.balance
          st'.endorsement st'.maxBlockProposers).2.map fun p => { p with active := true } := by
  rw [hcold] at hv
  obtain ⟨signer, c, sched, -, hc, hsched, htime, happly⟩ := validateProposer_eq_ok_inv hv
  obtain ⟨all, hall, rfl⟩ := Option.map_eq_some_iff.mp hc
  obtain rfl : all = [candidateOf x (st.authority.entries x)] := hl.allCandidates_eq_some hall
  -- the proposer is the lone candidate, inactive, so the updates end with its activation
  obtain ⟨p, d, hp, hupd⟩ := updates_of_newScheduler hsched htime
  have hpx : p = proposerOf (candidateOf x (st.authority.entries x)) := by
    have hmem := (List.mem_filter.mp (List.mem_of_getLast? hp)).1
    rw [Candidates.pick_newCandidates] at hmem
    obtain ⟨cand, hcand, rfl⟩ := List.mem_map.mp hmem
    rw [List.mem_singleton.mp (List.mem_of_mem_filter (List.mem_of_mem_take hcand))]
  have hact : activation p = [⟨x, true⟩] := by
    simp [hpx, activation, proposerOf, candidateOf, hx]
  rw [hupd, hact] at happly
  have hauth : r.1 = st.authority := applyUpdates_singleton hl happly
  have hst' : st'.authority = st.authority := (hrt.authority hno).trans hauth
  -- the last update sets the flag of the list's one entry
  obtain ⟨a', c', hpre, hlast⟩ := applyUpdates_append_singleton _ happly
  have hagree' := (agrees_newCandidates hl).pick.applyUpdates hpre
  obtain rfl : a' = st.authority := applyUpdates_singleton hl hpre
  have hmaster : c'.masters x = some 0 := by
    rw [hagree'.masters, Candidates.masters_newCandidates]
    simp [listedCandidates, candidateOf]
  rw [c'.update_eq_of_masters hmaster, Prod.mk.injEq] at hlast
  have hlist : r.2.list = [{ candidateOf x (st.authority.entries x) with active := true }] := by
    rw [← hlast.1]
    rcases hagree'.list with hl' | ⟨cand, b, hfresh, hl'⟩
    · rw [hl']
      rfl
    · obtain rfl : cand = candidateOf x (st.authority.entries x) := by
        simpa [listedCandidates] using hfresh.symm
      rw [hl']
      rfl
  have hagree := ((agrees_newCandidates hl).pick.applyUpdates happly).runtime hrt hno
  have hclist : (if hasEndorsorEvent r.2 receipts then r.2.invalidateCache else r.2).list =
      [{ candidateOf x (st.authority.entries x) with active := true }] := by
    split_ifs <;> exact hlist
  refine ⟨hst', ?_, _, cacheCandidates_self _ _ hno, hclist, ?_⟩
  · rw [hst']
    exact hl.allCandidates (by simp)
  · rw [hagree.pick_eq, hclist, pick_newCandidates_singleton]

/-- Two masters added, the first deactivated and the second revoked: the first is left alone
in the list, inactive. -/
def loneState : StateView :=
  ⟨(Authority.run Authority.new
    [.add Address.zero ⟨List.replicate 19 0 ++ [1], rfl⟩ Bytes32.zero,
      .add ⟨List.replicate 19 0 ++ [1], rfl⟩ ⟨List.replicate 19 0 ++ [1], rfl⟩ Bytes32.zero,
      .update Address.zero false, .revoke ⟨List.replicate 19 0 ++ [1], rfl⟩]).1,
    fun _ => 0, 0, 0⟩

/-- A parent at time `0`, numbered `1`, and its child signed by the lone master `10` s later. -/
def loneParent : Block.Header :=
  ⟨⟨[0, 0, 0, 1] ++ List.replicate 28 0, by decide⟩, Bytes32.zero, 0, 0, none⟩

def loneHeader : Block.Header :=
  ⟨Bytes32.zero, ⟨[0, 0, 0, 1] ++ List.replicate 28 0, by decide⟩, 10, 1, some Address.zero⟩

theorem validate_caches_lone_master_active_after_revoke :
    ∃ r, Listed loneState.authority [Address.zero] ∧
      (loneState.authority.entries Address.zero).active = false ∧
      validateProposer loneHeader loneParent loneState none 100 (fun _ => .ok []) 2 =
        some (.ok r) ∧
      r.1 = loneState.authority ∧
      r.1.allCandidates 2 =
        some [candidateOf Address.zero (loneState.authority.entries Address.zero)] ∧
      ∃ c, cacheCandidates (fun _ => none) loneHeader.id r.2 [] loneHeader.id = some c ∧
        c.list = [{ candidateOf Address.zero (loneState.authority.entries Address.zero) with
          active := true }] ∧
        (c.pick (fun _ => 0) 0 0).2 = ((newCandidates [candidateOf Address.zero
          (loneState.authority.entries Address.zero)]).pick (fun _ => 0) 0 0).2.map
            fun p => { p with active := true } := by
  have hl : Listed loneState.authority [Address.zero] := by
    have h := listed_new.run [.add Address.zero ⟨List.replicate 19 0 ++ [1], rfl⟩ Bytes32.zero,
      .add ⟨List.replicate 19 0 ++ [1], rfl⟩ ⟨List.replicate 19 0 ++ [1], rfl⟩ Bytes32.zero,
      .update Address.zero false, .revoke ⟨List.replicate 19 0 ++ [1], rfl⟩]
      (by intro x e i he; simp at he; rcases he with ⟨-, rfl, -⟩ | ⟨-, rfl, -⟩ <;> decide)
    have hfold : ([Op.add Address.zero ⟨List.replicate 19 0 ++ [1], rfl⟩ Bytes32.zero,
        .add ⟨List.replicate 19 0 ++ [1], rfl⟩ ⟨List.replicate 19 0 ++ [1], rfl⟩ Bytes32.zero,
        .update Address.zero false, .revoke ⟨List.replicate 19 0 ++ [1], rfl⟩].zip
        (Authority.run Authority.new [.add Address.zero ⟨List.replicate 19 0 ++ [1], rfl⟩
          Bytes32.zero,
          .add ⟨List.replicate 19 0 ++ [1], rfl⟩ ⟨List.replicate 19 0 ++ [1], rfl⟩ Bytes32.zero,
          .update Address.zero false, .revoke ⟨List.replicate 19 0 ++ [1], rfl⟩]).2).foldl
        Op.listed [] = [Address.zero] := by
      decide +kernel
    rw [hfold] at h
    exact h
  have hx : (loneState.authority.entries Address.zero).active = false := by decide +kernel
  have hall : loneState.authority.allCandidates 2 =
      some ([Address.zero].map fun p => candidateOf p (loneState.authority.entries p)) :=
    hl.allCandidates (by simp)
  obtain ⟨r, happly⟩ : ∃ r, applyUpdates loneState.authority ((newCandidates
      ([Address.zero].map fun p => candidateOf p (loneState.authority.entries p))).pick
        loneState.balance loneState.endorsement loneState.maxBlockProposers).1
      [⟨Address.zero, true⟩] = some r := ⟨_, rfl⟩
  have hsched : newScheduler Address.zero ((newCandidates
      ([Address.zero].map fun p => candidateOf p (loneState.authority.entries p))).pick
        loneState.balance loneState.endorsement loneState.maxBlockProposers).2 loneHeader
        loneParent 100 (fun _ => .ok []) =
      .ok (.v1 ⟨⟨Address.zero, false⟩, [⟨Address.zero, false⟩], 1, 0, List.mem_singleton_self _⟩) :=
    rfl
  have hupd : ((Scheduler.v1 ⟨⟨Address.zero, false⟩, [⟨Address.zero, false⟩], 1, 0,
      List.mem_singleton_self _⟩).updates 10).1 = [⟨Address.zero, true⟩] := by
    decide +kernel
  have hv : validateProposer loneHeader loneParent loneState none 100 (fun _ => .ok []) 2 =
      some (.ok r) :=
    validateProposer_eq_ok rfl hall hsched (by decide +kernel) (by decide +kernel)
      (hupd ▸ happly)
  have hrt : Runtime { loneState with authority := r.1 } { loneState with authority := r.1 } [] :=
    ⟨⟨[], by simp, rfl⟩, fun _ => rfl, fun _ _ _ _ hne => absurd rfl hne,
      fun hne => by simp at hne⟩
  have hcold : (fun _ : Bytes32 => (none : Option Candidates)) loneParent.id = none := rfl
  have hno : hasAuthorityEvent [] = false := rfl
  have hlone := @validate_caches_lone_master_active 100 (fun _ => .ok []) 2 (fun _ => none)
    loneHeader loneParent loneState { loneState with authority := r.1 } r [] Address.zero hcold hl
    hx hv hrt hno
  exact ⟨r, hl, hx, hv, hlone⟩

end AuthorityBlock.Consensus
