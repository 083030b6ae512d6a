import AuthorityBlock.Ablock.Types
import AuthorityBlock.Lib.Word
import Mathlib

/-! The justifier of a BFT round, `justifier` in `bft/justifier.go`: the votes of the round's
blocks, one per signer, beside a counter of the signers whose votes are all COM, and the
state `Summarize` reads off them.

`AddBlock` keeps the map and the counter by three branches (a first vote, a COM signer turning
to WIT, a WIT signer voting COM). Over any sequence of calls they track the abstract round:
the set of signers and the set of those whose every vote was COM (`Tracks.addBlocks`). The
summary of a round is then a function of these two sets, whatever the order of the calls
(`summarize_addBlocks`). -/

namespace AuthorityBlock.Bft

/-- `bft.bftState`. -/
structure BftState where
  Quality : UInt32
  Justified : Bool
  Committed : Bool
deriving DecidableEq

structure Justifier where
  parentQuality : UInt32
  checkpoint : UInt32
  threshold : UInt64
  votes : AList fun _ : Address => Bool
  comVotes : UInt64

/-- A justifier with no vote yet, for the values `newJustifier` reads off the chain. -/
def Justifier.empty (parentQuality checkpoint : UInt32) (threshold : UInt64) : Justifier :=
  ⟨parentQuality, checkpoint, threshold, ∅, 0⟩

/-- `newJustifier`, from the parent round's quality, the round's checkpoint and the maximum
number of block proposers read off the chain. -/
def newJustifier (parentQuality checkpoint : UInt32) (mbp : UInt64) : Justifier :=
  Justifier.empty parentQuality checkpoint (mbp * 2 / 3)

namespace Justifier

def AddBlock (js : Justifier) (_blockID : Bytes32) (signer : Address) (isCOM : Bool) :
    Justifier :=
  match js.votes.lookup signer with
  | none =>
    { js with
      votes := js.votes.insert signer isCOM
      comVotes := if isCOM then js.comVotes + 1 else js.comVotes }
  | some prev =>
    if prev ≠ isCOM then
      -- one who votes both COM and non-COM in one round counts as non-COM
      { js with
        votes := js.votes.insert signer false
        comVotes := if prev then js.comVotes - 1 else js.comVotes }
    else js

def Summarize (js : Justifier) : BftState :=
  let justified := decide ((js.votes.entries.length : ℤ) > js.threshold.toInt64.toInt)
  { Quality := if justified then js.parentQuality + 1 else js.parentQuality
    Justified := justified
    Committed := decide (js.comVotes > js.threshold) }

end Justifier

/-- One call of `AddBlock`. -/
structure Vote where
  blockID : Bytes32
  signer : Address
  isCOM : Bool

/-- A sequence of calls of `AddBlock`. -/
def Justifier.addBlocks (js : Justifier) (l : List Vote) : Justifier :=
  l.foldl (fun js v => js.AddBlock v.blockID v.signer v.isCOM) js

@[simp] lemma Justifier.addBlocks_nil (js : Justifier) : js.addBlocks [] = js := rfl

@[simp] lemma Justifier.addBlocks_append (js : Justifier) (l l' : List Vote) :
    js.addBlocks (l ++ l') = (js.addBlocks l).addBlocks l' := List.foldl_append

@[simp] lemma Justifier.addBlocks_singleton (js : Justifier) (v : Vote) :
    js.addBlocks [v] = js.AddBlock v.blockID v.signer v.isCOM := rfl

/-! ### The round the votes describe -/

/-- The signers of a sequence of votes. -/
def voters (l : List Vote) : Finset Address := (l.map Vote.signer).toFinset

/-- Whether every vote a signer cast is COM. -/
def allCOM (l : List Vote) (s : Address) : Bool := l.all fun v => v.signer != s || v.isCOM

/-- The signers every vote of whom is COM. -/
def committers (l : List Vote) : Finset Address := (voters l).filter fun s => allCOM l s = true

/-- What the map of a justifier should hold for a signer after the votes `l`. -/
def voteOf (l : List Vote) (s : Address) : Option Bool :=
  if s ∈ voters l then some (allCOM l s) else none

lemma mem_voters {l : List Vote} {s : Address} : s ∈ voters l ↔ ∃ v ∈ l, v.signer = s := by
  simp [voters]

lemma mem_committers {l : List Vote} {s : Address} :
    s ∈ committers l ↔ s ∈ voters l ∧ allCOM l s = true := Finset.mem_filter

lemma committers_subset (l : List Vote) : committers l ⊆ voters l := Finset.filter_subset _ _

@[simp] lemma voters_nil : voters [] = ∅ := rfl

@[simp] lemma allCOM_nil (s : Address) : allCOM [] s = true := rfl

lemma voters_concat (l : List Vote) (v : Vote) : voters (l ++ [v]) = insert v.signer (voters l) := by
  ext s
  simp only [mem_voters, List.mem_append, List.mem_singleton, Finset.mem_insert]
  constructor
  · rintro ⟨w, hw | rfl, rfl⟩
    · exact .inr ⟨w, hw, rfl⟩
    · exact .inl rfl
  · rintro (rfl | ⟨w, hw, rfl⟩)
    · exact ⟨v, .inr rfl, rfl⟩
    · exact ⟨w, .inl hw, rfl⟩

lemma allCOM_concat (l : List Vote) (v : Vote) (s : Address) :
    allCOM (l ++ [v]) s = (allCOM l s && (v.signer != s || v.isCOM)) := by
  simp [allCOM, List.all_append]

lemma allCOM_of_not_mem {l : List Vote} {s : Address} (h : s ∉ voters l) : allCOM l s = true := by
  rw [allCOM, List.all_eq_true]
  intro v hv
  have hne : v.signer ≠ s := fun he => h (mem_voters.mpr ⟨v, hv, he⟩)
  simp [hne]

lemma allCOM_eq_decide (l : List Vote) (s : Address) :
    allCOM l s = decide (∀ v ∈ l, v.signer = s → v.isCOM = true) := by
  rw [Bool.eq_iff_iff, decide_eq_true_iff, allCOM, List.all_eq_true]
  refine forall₂_congr fun v _ => ?_
  by_cases hv : v.signer = s <;> simp [hv]

lemma voteOf_concat (l : List Vote) (v : Vote) (s : Address) :
    voteOf (l ++ [v]) s =
      if v.signer = s then some ((voteOf l s).elim v.isCOM (· && v.isCOM)) else voteOf l s := by
  unfold voteOf
  rw [voters_concat, allCOM_concat]
  by_cases hs : v.signer = s
  · subst hs
    by_cases hl : v.signer ∈ voters l
    · simp [hl]
    · simp [hl, allCOM_of_not_mem hl]
  · have hne : (v.signer != s) = true := bne_iff_ne.mpr hs
    simp [hs, hne, Ne.symm hs]

lemma committers_concat (l : List Vote) (v : Vote) :
    committers (l ++ [v]) =
      if v.isCOM then
        (if v.signer ∈ voters l then committers l else insert v.signer (committers l))
      else (committers l).erase v.signer := by
  ext s
  rw [mem_committers, voters_concat, allCOM_concat, Finset.mem_insert]
  by_cases hs : s = v.signer
  · subst hs
    cases hc : v.isCOM
    · simp
    · by_cases hl : v.signer ∈ voters l
      · simp [hl, mem_committers]
      · simp [hl, allCOM_of_not_mem hl]
  · have hne : (v.signer != s) = true := bne_iff_ne.mpr (Ne.symm hs)
    cases hc : v.isCOM
    · simp [hs, hne, mem_committers]
    · by_cases hl : v.signer ∈ voters l
      · simp [hs, hne, hl, mem_committers]
      · simp [hs, hne, hl, mem_committers]

lemma voters_perm {l l' : List Vote} (h : l.Perm l') : voters l = voters l' := by
  ext s
  simp only [mem_voters, h.mem_iff]

lemma allCOM_perm {l l' : List Vote} (h : l.Perm l') (s : Address) : allCOM l s = allCOM l' s := by
  rw [Bool.eq_iff_iff]
  simp only [allCOM, List.all_eq_true, h.mem_iff]

lemma committers_perm {l l' : List Vote} (h : l.Perm l') : committers l = committers l' := by
  ext s
  rw [mem_committers, mem_committers, voters_perm h, allCOM_perm h]

/-! ### The justifier tracks the round -/

/-- The justifier's map holds, for each signer, whether all its votes of `l` were COM, and
its counter counts the signers with only COM votes, as a `uint64`. -/
structure Tracks (js : Justifier) (l : List Vote) : Prop where
  lookup_eq : ∀ s, js.votes.lookup s = voteOf l s
  comVotes_eq : js.comVotes = (committers l).card.toUInt64

lemma tracks_empty (parentQuality checkpoint : UInt32) (threshold : UInt64) :
    Tracks (Justifier.empty parentQuality checkpoint threshold) [] :=
  ⟨fun _ => rfl, rfl⟩

lemma lookup_addBlock (js : Justifier) (blockID : Bytes32) (signer s : Address) (isCOM : Bool) :
    (js.AddBlock blockID signer isCOM).votes.lookup s =
      if signer = s then some ((js.votes.lookup signer).elim isCOM (· && isCOM))
      else js.votes.lookup s := by
  unfold Justifier.AddBlock
  cases hl : js.votes.lookup signer with
  | none =>
    by_cases hs : signer = s
    · subst hs
      simp [AList.lookup_insert]
    · simp [hs, AList.lookup_insert_ne (Ne.symm hs)]
  | some prev =>
    by_cases hp : prev ≠ isCOM
    · by_cases hs : signer = s
      · subst hs
        cases prev <;> cases isCOM <;> simp_all [AList.lookup_insert]
      · simp [hp, hs, AList.lookup_insert_ne (Ne.symm hs)]
    · have hp' : prev = isCOM := not_not.mp hp
      subst hp'
      by_cases hs : signer = s
      · subst hs
        simp [hl]
      · simp [hs]

lemma Tracks.addBlock {js : Justifier} {l : List Vote} (h : Tracks js l) (v : Vote) :
    Tracks (js.AddBlock v.blockID v.signer v.isCOM) (l ++ [v]) := by
  refine ⟨fun s => ?_, ?_⟩
  · rw [lookup_addBlock, voteOf_concat]
    by_cases hs : v.signer = s
    · subst hs
      rw [if_pos rfl, if_pos rfl, h.lookup_eq]
    · rw [if_neg hs, if_neg hs, h.lookup_eq]
  · have hl := h.lookup_eq v.signer
    rw [committers_concat]
    unfold Justifier.AddBlock
    unfold voteOf at hl
    by_cases hv : v.signer ∈ voters l
    · -- a signer seen before: the counter moves only when a COM signer votes WIT
      rw [if_pos hv] at hl
      rw [hl]
      dsimp only
      by_cases hc : v.isCOM
      · cases hcom : allCOM l v.signer
        · simp [hc, hv, h.comVotes_eq]
        · simp [hc, hv, h.comVotes_eq]
      · cases hcom : allCOM l v.signer
        · have hn : v.signer ∉ committers l := by simp [mem_committers, hcom]
          simp [hc, Finset.erase_eq_of_notMem hn, h.comVotes_eq]
        · have hm : v.signer ∈ committers l := mem_committers.mpr ⟨hv, hcom⟩
          have hpos := Finset.card_pos.mpr ⟨_, hm⟩
          simp only [hc, ne_eq, Bool.true_eq_false, not_false_eq_true, if_true,
            Bool.false_eq_true, if_false, h.comVotes_eq]
          rw [Finset.card_erase_of_mem hm, Nat.toUInt64_eq, Nat.toUInt64_eq,
            UInt64.ofNat_sub hpos]
          rfl
    · -- a first vote: the counter moves for a COM one
      rw [if_neg hv] at hl
      rw [hl]
      dsimp only
      have hn : v.signer ∉ committers l := fun hm => hv (committers_subset l hm)
      cases hc : v.isCOM
      · simp [Finset.erase_eq_of_notMem hn, h.comVotes_eq]
      · simp only [if_true, if_neg hv, Finset.card_insert_of_notMem hn, h.comVotes_eq,
          Nat.toUInt64_eq, UInt64.ofNat_add]
        rfl

lemma Tracks.addBlocks {js : Justifier} {l₀ : List Vote} (h : Tracks js l₀) (l : List Vote) :
    Tracks (js.addBlocks l) (l₀ ++ l) := by
  induction l using List.reverseRecOn with
  | nil => simpa using h
  | append_singleton l v ih =>
    rw [Justifier.addBlocks_append, Justifier.addBlocks_singleton, ← List.append_assoc]
    exact ih.addBlock v

/-- One who votes COM and then WIT counts as non-COM. -/
example : ((Justifier.empty 0 0 0).addBlocks
    [⟨Bytes32.zero, Address.zero, true⟩, ⟨Bytes32.zero, Address.zero, false⟩]).comVotes = 0 := by
  decide

/-! ### The summary of a round -/

/-- The state of a round with the votes `l`: justified once more signers voted than the
threshold, committed once more signers voted only COM. -/
def summary (parentQuality : UInt32) (threshold : UInt64) (l : List Vote) : BftState :=
  let justified := decide (((voters l).card : ℤ) > threshold.toInt64.toInt)
  { Quality := if justified then parentQuality + 1 else parentQuality
    Justified := justified
    Committed := decide ((committers l).card.toUInt64 > threshold) }

lemma summary_perm (parentQuality : UInt32) (threshold : UInt64) {l l' : List Vote}
    (h : l.Perm l') : summary parentQuality threshold l = summary parentQuality threshold l' := by
  rw [summary, summary, voters_perm h, committers_perm h]

lemma AddBlock_parentQuality (js : Justifier) (blockID : Bytes32) (signer : Address)
    (isCOM : Bool) : (js.AddBlock blockID signer isCOM).parentQuality = js.parentQuality := by
  unfold Justifier.AddBlock
  split
  · rfl
  · split_ifs <;> rfl

lemma AddBlock_threshold (js : Justifier) (blockID : Bytes32) (signer : Address)
    (isCOM : Bool) : (js.AddBlock blockID signer isCOM).threshold = js.threshold := by
  unfold Justifier.AddBlock
  split
  · rfl
  · split_ifs <;> rfl

lemma addBlocks_params (js : Justifier) (l : List Vote) :
    (js.addBlocks l).parentQuality = js.parentQuality ∧
      (js.addBlocks l).threshold = js.threshold := by
  induction l generalizing js with
  | nil => exact ⟨rfl, rfl⟩
  | cons v l ih =>
    obtain ⟨hq, ht⟩ := ih (js.AddBlock v.blockID v.signer v.isCOM)
    exact ⟨hq.trans (AddBlock_parentQuality ..), ht.trans (AddBlock_threshold ..)⟩

lemma Tracks.keys_toFinset {js : Justifier} {l : List Vote} (h : Tracks js l) :
    js.votes.keys.toFinset = voters l := by
  ext s
  rw [List.mem_toFinset, ← AList.mem_keys, ← AList.lookup_isSome, h.lookup_eq, voteOf]
  split_ifs with hs <;> simp [hs]

lemma Tracks.length_entries {js : Justifier} {l : List Vote} (h : Tracks js l) :
    js.votes.entries.length = (voters l).card := by
  rw [← h.keys_toFinset, List.toFinset_card_of_nodup js.votes.keys_nodup, AList.keys,
    List.keys, List.length_map]

lemma Tracks.filter_keys {js : Justifier} {l : List Vote} (h : Tracks js l) :
    js.votes.keys.toFinset.filter (fun s => js.votes.lookup s = some true) = committers l := by
  ext s
  rw [Finset.mem_filter, h.keys_toFinset, h.lookup_eq, voteOf, mem_committers]
  split_ifs with hs <;> simp [hs]

lemma Tracks.summarize_eq {js : Justifier} {l : List Vote} (h : Tracks js l) :
    js.Summarize = summary js.parentQuality js.threshold l := by
  rw [Justifier.Summarize, summary, h.length_entries, h.comVotes_eq]

lemma Tracks.comVotes_le {js : Justifier} {l : List Vote} (h : Tracks js l) :
    js.comVotes.toNat ≤ js.votes.entries.length := by
  rw [h.comVotes_eq, h.length_entries, Nat.toUInt64_eq, UInt64.toNat_ofNat']
  exact (Nat.mod_le _ _).trans (Finset.card_le_card (committers_subset l))

lemma Justifier.justified_of_committed {js : Justifier}
    (h : js.comVotes.toNat ≤ js.votes.entries.length) (hc : js.Summarize.Committed = true) :
    js.Summarize.Justified = true := by
  simp only [Justifier.Summarize, decide_eq_true_eq, gt_iff_lt, UInt64.lt_iff_toNat_lt] at hc ⊢
  have hint := Word.toInt_toInt64_le js.threshold
  omega

lemma Justifier.quality_summarize (js : Justifier) :
    js.Summarize.Quality = js.parentQuality + if js.Summarize.Justified then 1 else 0 := by
  unfold Justifier.Summarize
  dsimp only
  split_ifs
  · rfl
  · rw [UInt32.add_zero]

theorem justifier_tracks_round (parentQuality checkpoint : UInt32) (threshold : UInt64)
    (l : List Vote) :
    let js := (Justifier.empty parentQuality checkpoint threshold).addBlocks l
    (∀ s ∈ voters l, js.votes.lookup s = some (decide (∀ v ∈ l, v.signer = s → v.isCOM = true))) ∧
    js.comVotes =
      (js.votes.keys.toFinset.filter fun s => js.votes.lookup s = some true).card.toUInt64 ∧
    (∀ l' : List Vote, l.Perm l' →
      js.Summarize = ((Justifier.empty parentQuality checkpoint threshold).addBlocks l').Summarize) ∧
    js.comVotes.toNat ≤ js.votes.entries.length ∧
    (js.Summarize.Committed = true → js.Summarize.Justified = true) ∧
    js.Summarize.Quality = parentQuality + if js.Summarize.Justified then 1 else 0 := by
  intro js
  have htr : Tracks js l := by
    simpa using (tracks_empty parentQuality checkpoint threshold).addBlocks l
  obtain ⟨hq, ht⟩ := addBlocks_params (Justifier.empty parentQuality checkpoint threshold) l
  refine ⟨fun s hs => ?_, ?_, fun l' hl' => ?_, htr.comVotes_le,
    Justifier.justified_of_committed htr.comVotes_le, ?_⟩
  · rw [htr.lookup_eq, voteOf, if_pos hs, allCOM_eq_decide]
  · rw [htr.filter_keys, htr.comVotes_eq]
  · -- both orders track their own round, and the two rounds have the same sets
    have htr' : Tracks ((Justifier.empty parentQuality checkpoint threshold).addBlocks l') l' := by
      simpa using (tracks_empty parentQuality checkpoint threshold).addBlocks l'
    obtain ⟨hq', ht'⟩ := addBlocks_params (Justifier.empty parentQuality checkpoint threshold) l'
    rw [htr.summarize_eq, htr'.summarize_eq, hq, ht, hq', ht', summary_perm _ _ hl']
  · rw [js.quality_summarize, hq]
    rfl

end AuthorityBlock.Bft
