import AuthorityBlock.Poa.SchedV2

/-! What `Updates` of both schedulers returns at a block time the proposer is scheduled at: a
deactivation of every other proposer whose turn fell in a slot the proposer's block skips,
then the proposer's activation if it was inactive, and the score, the number of actives less
the number deactivated, which is at least one. The first scheduler keys its deactivations by
address; the second deactivates once per entry of its shuffled list, so once per address only
when the proposers' addresses are distinct. -/

namespace AuthorityBlock.Poa

lemma onSlot_index {parentBlockTime newBlockTime : UInt64} (h : onSlot parentBlockTime newBlockTime) :
    newBlockTime.toNat = parentBlockTime.toNat +
      10 * (((newBlockTime - parentBlockTime) / BlockInterval - 1).toNat + 1) := by
  obtain ⟨hlt, hmod⟩ := onSlot_iff.mp h
  have hdiv : ((newBlockTime - parentBlockTime) / BlockInterval).toNat =
      (newBlockTime.toNat - parentBlockTime.toNat) / 10 := by
    rw [UInt64.toNat_div, Word.toNat_sub_of_toNat_le hlt.le, blockInterval_toNat]
  rw [Word.toNat_sub_of_toNat_le (by rw [hdiv, UInt64.toNat_one]; omega), hdiv,
    UInt64.toNat_one]
  omega

/-- The activation `Updates` appends for an inactive proposer. -/
def activation (proposer : Proposer) : List Proposer :=
  if !proposer.active then [{ proposer with active := true }] else []

namespace SchedulerV2

variable (s : SchedulerV2)

/-- The entries whose slots lie between the parent and `newBlockTime`: `shuffled[i]` for
`i < min(len, (newBlockTime - parentBlockTime) / T - 1)`. -/
def passed (newBlockTime : UInt64) : List Address :=
  s.shuffled.take ((newBlockTime - s.parentBlockTime) / BlockInterval - 1).toNat

lemma deactivated_eq {newBlockTime : UInt64} {k : ℕ}
    (hk : newBlockTime.toNat = s.parentBlockTime.toNat + 10 * (k + 1)) :
    ∀ (l : List Address) (i : ℕ), i ≤ k →
      s.deactivated newBlockTime i l =
        ((l.take (k - i)).filter (· ≠ s.proposer.address)).map (⟨·, false⟩)
  | [], i, _ => by simp [deactivated]
  | a :: rest, i, hi => by
    -- no sum of the loop's test wraps below the new block's slot
    have hb := UInt64.toNat_lt newBlockTime
    have hi64 : i < 2 ^ 64 := by omega
    have hmul : (i.toUInt64 * BlockInterval).toNat = 10 * i := by
      rw [Word.toNat_mul_of_lt (by rw [Word.natCast_toNat_of_lt hi64, blockInterval_toNat]; omega),
        Word.natCast_toNat_of_lt hi64, blockInterval_toNat, Nat.mul_comm]
    have hT : (s.parentBlockTime + BlockInterval).toNat = s.parentBlockTime.toNat + 10 :=
      Word.toNat_add_of_lt (by rw [blockInterval_toNat]; omega)
    have hsum : (s.parentBlockTime + BlockInterval + i.toUInt64 * BlockInterval).toNat =
        s.parentBlockTime.toNat + 10 + 10 * i := by
      rw [Word.toNat_add_of_lt (by rw [hT, hmul]; omega), hT, hmul]
    have hstop : s.parentBlockTime + BlockInterval + i.toUInt64 * BlockInterval ≥ newBlockTime ↔
        k ≤ i := by
      rw [ge_iff_le, UInt64.le_iff_toNat_le, hsum]
      omega
    rw [deactivated]
    by_cases hik : k ≤ i
    · rw [if_pos (hstop.mpr hik), show k - i = 0 by omega]
      simp
    · rw [if_neg (mt hstop.mp hik), deactivated_eq hk rest (i + 1) (by omega),
        show k - i = k - (i + 1) + 1 by omega, List.take_succ_cons]
      by_cases ha : a = s.proposer.address <;> simp [ha]

lemma updates_eq {newBlockTime : UInt64} (h : s.isTheTime newBlockTime) :
    s.updates newBlockTime =
      (((s.passed newBlockTime).filter (· ≠ s.proposer.address)).map (⟨·, false⟩) ++
          activation s.proposer,
        (s.shuffled.length -
          ((s.passed newBlockTime).filter (· ≠ s.proposer.address)).length).toUInt64) := by
  have hk := onSlot_index (s.isTheTime_onSlot h)
  have hd := s.deactivated_eq hk s.shuffled 0 (Nat.zero_le _)
  rw [Nat.sub_zero] at hd
  simp only [updates, hd, passed, activation, List.length_map]
  by_cases ha : s.proposer.active <;> simp [ha]

lemma length_filter_passed_lt (newBlockTime : UInt64) :
    ((s.passed newBlockTime).filter (· ≠ s.proposer.address)).length < s.shuffled.length := by
  by_cases hk : s.shuffled.length ≤ ((newBlockTime - s.parentBlockTime) / BlockInterval - 1).toNat
  · rw [passed, List.take_of_length_le hk, List.length_filter_lt_length_iff_exists]
    exact ⟨_, s.proposer_mem, by simp⟩
  · calc ((s.passed newBlockTime).filter (· ≠ s.proposer.address)).length
        ≤ (s.passed newBlockTime).length := List.length_filter_le _ _
      _ < s.shuffled.length := by rw [passed, List.length_take]; omega

end SchedulerV2

lemma nodup_shuffled {addr : Address} {proposers : List Proposer} {parentBlockNumber : UInt32}
    {parentBlockTime : UInt64} {seed : List UInt8} {s : SchedulerV2}
    (h : newSchedulerV2 addr proposers parentBlockNumber parentBlockTime seed = .ok s)
    (hnd : (proposers.map Proposer.address).Nodup) : s.shuffled.Nodup := by
  unfold newSchedulerV2 at h
  split at h
  · cases h
  · cases h
    show (shuffle (hashed addr proposers parentBlockNumber seed)).Nodup
    rw [shuffle, ((List.mergeSort_perm _ _).map Prod.fst).nodup_iff, hashed, List.map_map]
    have hsub : ((activesOf addr proposers).map Proposer.address).Sublist
        (proposers.map Proposer.address) := List.filter_sublist.map _
    simpa [Function.comp_def] using hsub.nodup hnd

namespace SchedulerV1

variable (s : SchedulerV1)

/-- `a` had a turn in one of the slots `Updates` looks back on: after the parent, before
`newBlockTime` and at most `InitialMaxBlockProposers` slots before it. -/
def PassedTurn (newBlockTime : UInt64) (a : Address) : Prop :=
  ∃ u : UInt64, onSlot s.parentBlockTime u ∧ u < newBlockTime ∧
    newBlockTime.toNat ≤ u.toNat + 10 * InitialMaxBlockProposers.toNat ∧
      (s.whoseTurn u).address = a

lemma missed_keys {t : UInt64} {c : ℕ} (hc : t.toNat = s.parentBlockTime.toNat + 10 * c) :
    ∀ (i : ℕ) (acc : AList fun _ : Address => Proposer) (a : Address),
      a ∈ (s.missed i t acc).keys ↔ a ∈ acc.keys ∨ a ≠ s.proposer.address ∧
        ∃ j < min i c, ∃ u : UInt64, u.toNat = t.toNat - 10 * j ∧ (s.whoseTurn u).address = a
  | 0, acc, a => by simp [missed]
  | i + 1, acc, a => by
    rw [missed]
    by_cases ht : t > s.parentBlockTime
    · have hc0 : 0 < c := by rw [gt_iff_lt, UInt64.lt_iff_toNat_lt] at ht; omega
      have hnext : (t - BlockInterval).toNat = s.parentBlockTime.toNat + 10 * (c - 1) := by
        rw [Word.toNat_sub_of_toNat_le (by rw [blockInterval_toNat]; omega), blockInterval_toNat]
        omega
      rw [if_pos ht, missed_keys hnext i]
      -- the slot just visited is `j = 0`; the later ones are `j + 1`
      constructor
      · rintro (hacc | ⟨hne, j, hj, u, hu, hturn⟩)
        · split_ifs at hacc with hne
          · rw [AList.keys_insert] at hacc
            rcases List.mem_cons.mp hacc with rfl | hacc
            · exact Or.inr ⟨hne, 0, by omega, t, by simp, rfl⟩
            · exact Or.inl (List.mem_of_mem_erase hacc)
          · exact Or.inl hacc
        · exact Or.inr ⟨hne, j + 1, by omega, u, by rw [hu, hnext]; omega, hturn⟩
      · rintro (hacc | ⟨hne, j, hj, u, hu, hturn⟩)
        · left
          split_ifs with hne'
          · rw [AList.keys_insert]
            by_cases hat : a = (s.whoseTurn t).address
            · exact hat ▸ List.mem_cons_self
            · exact List.mem_cons_of_mem _ ((List.mem_erase_of_ne hat).mpr hacc)
          · exact hacc
        · cases j with
          | zero =>
            have hut : u = t := UInt64.toNat_inj.mp (by simpa using hu)
            subst hut
            left
            rw [if_pos (hturn ▸ hne), AList.keys_insert, hturn]
            exact List.mem_cons_self
          | succ j =>
            exact Or.inr ⟨hne, j, by omega, u, by rw [hu, hnext]; omega, hturn⟩
    · have hc0 : c = 0 := by
        rw [gt_iff_lt, UInt64.lt_iff_toNat_lt] at ht
        omega
      rw [if_neg ht]
      simp [hc0]

lemma missed_address :
    ∀ (i : ℕ) (t : UInt64) (acc : AList fun _ : Address => Proposer),
      (∀ e ∈ acc.entries, e.2.address = e.1) → ∀ e ∈ (s.missed i t acc).entries, e.2.address = e.1
  | 0, _, _, h => h
  | i + 1, t, acc, h => by
    rw [missed]
    split_ifs with ht
    · refine missed_address i _ _ fun e he => ?_
      split_ifs at he
      · rw [AList.entries_insert] at he
        rcases List.mem_cons.mp he with rfl | he
        · rfl
        · exact h e ((List.kerase_sublist _ _).subset he)
      · exact h e he
    · exact h

lemma updates_spec {newBlockTime : UInt64} (h : s.isTheTime newBlockTime) :
    ∃ deactivated : List Proposer,
      (s.updates newBlockTime).1 = deactivated ++ activation s.proposer ∧
      (∀ u, u ∈ deactivated ↔ u.active = false ∧ u.address ≠ s.proposer.address ∧
        s.PassedTurn newBlockTime u.address) ∧
      (deactivated.map Proposer.address).Nodup ∧
      (s.updates newBlockTime).2 = (s.actives.length - deactivated.length).toUInt64 ∧
      deactivated.length < s.actives.length := by
  have hk := onSlot_index (s.isTheTime_onSlot h)
  set k := ((newBlockTime - s.parentBlockTime) / BlockInterval - 1).toNat
  have hstart : (newBlockTime - BlockInterval).toNat = s.parentBlockTime.toNat + 10 * k := by
    rw [Word.toNat_sub_of_toNat_le (by rw [blockInterval_toNat]; omega), blockInterval_toNat]
    omega
  have hkeys := s.missed_keys hstart InitialMaxBlockProposers.toNat ∅
  have haddr := s.missed_address InitialMaxBlockProposers.toNat (newBlockTime - BlockInterval) ∅
    (by simp)
  have hmem := s.missed_mem InitialMaxBlockProposers.toNat (newBlockTime - BlockInterval) ∅
    (by simp)
  have hupd : s.updates newBlockTime =
      ((s.missed InitialMaxBlockProposers.toNat (newBlockTime - BlockInterval) ∅).entries.map
          (fun e => ({ e.2 with active := false } : Proposer)) ++ activation s.proposer,
        s.actives.length.toUInt64 - (s.missed InitialMaxBlockProposers.toNat
          (newBlockTime - BlockInterval) ∅).entries.length.toUInt64) := by
    simp only [updates, activation]
    by_cases ha : s.proposer.active <;> simp [ha]
  generalize s.missed InitialMaxBlockProposers.toNat (newBlockTime - BlockInterval) ∅ =
    toDeactivate at hkeys haddr hmem hupd
  have hklen : toDeactivate.keys.length = toDeactivate.entries.length := by
    simp [AList.keys, List.keys]
  have hmap : toDeactivate.entries.map (fun e => ({ e.2 with active := false } : Proposer)) =
      toDeactivate.keys.map (⟨·, false⟩) := by
    rw [AList.keys, List.keys, List.map_map]
    exact List.map_congr_left fun e he => by simp [haddr e he]
  -- the keys are distinct addresses of actives other than the proposer's
  have hlen : toDeactivate.entries.length < s.actives.length := by
    have hsub : s.proposer.address :: toDeactivate.keys ⊆ s.actives.map Proposer.address := by
      intro a ha
      rcases List.mem_cons.mp ha with rfl | ha
      · exact List.mem_map_of_mem s.proposer_mem
      · obtain ⟨e, he, rfl⟩ := List.mem_map.mp ha
        rw [← haddr e he]
        exact List.mem_map_of_mem (hmem e he)
    have hnd : (s.proposer.address :: toDeactivate.keys).Nodup := by
      refine List.nodup_cons.mpr ⟨fun ha => ?_, toDeactivate.keys_nodup⟩
      obtain (ha | ⟨hne, -⟩) := (hkeys _).mp ha
      · simp at ha
      · exact hne rfl
    have := (List.subperm_of_subset hnd hsub).length_le
    simp only [List.length_cons, List.length_map, AList.keys, List.keys] at this
    omega
  refine ⟨toDeactivate.keys.map (⟨·, false⟩), ?_, fun u => ?_, ?_, ?_, ?_⟩
  · rw [hupd, hmap]
  · -- the slots visited are the passed ones, counted back from the new block
    rw [List.mem_map]
    constructor
    · rintro ⟨a, ha, rfl⟩
      obtain (ha | ⟨hne, j, hj, u, hu, hturn⟩) := (hkeys a).mp ha
      · simp at ha
      · refine ⟨rfl, hne, u, onSlot_iff.mpr ⟨?_, ?_⟩, ?_, ?_, hturn⟩
        · rw [hstart] at hu
          have : j < k := by omega
          omega
        · rw [hstart] at hu
          have : j < k := by omega
          rw [hu, show s.parentBlockTime.toNat + 10 * k - 10 * j - s.parentBlockTime.toNat =
            10 * (k - j) by omega, Nat.mul_mod_right]
        · rw [UInt64.lt_iff_toNat_lt, hu, hstart]
          omega
        · rw [hu, hstart, show InitialMaxBlockProposers.toNat = 101 from rfl] at *
          omega
    · rintro ⟨hfalse, hne, t, hslot, hlt, hback, hturn⟩
      refine ⟨u.address, (hkeys u.address).mpr (Or.inr ⟨hne, ?_⟩), ?_⟩
      · obtain ⟨hpt, hmod⟩ := onSlot_iff.mp hslot
        rw [UInt64.lt_iff_toNat_lt] at hlt
        rw [show InitialMaxBlockProposers.toNat = 101 from rfl] at hback ⊢
        refine ⟨(newBlockTime.toNat - t.toNat) / 10 - 1, by omega, t, by rw [hstart]; omega, hturn⟩
      · obtain ⟨a, act⟩ := u
        cases hfalse
        rfl
  · rw [List.map_map]
    simpa [Function.comp_def] using toDeactivate.keys_nodup
  · rw [hupd, List.length_map, hklen]
    exact (UInt64.ofNat_sub hlen.le).symm
  · rwa [List.length_map, hklen]

end SchedulerV1

lemma newSchedulerV2_listedAs {addr : Address} {proposers : List Proposer}
    {parentBlockNumber : UInt32} {parentBlockTime : UInt64} {seed : List UInt8} {s : SchedulerV2}
    (h : newSchedulerV2 addr proposers parentBlockNumber parentBlockTime seed = .ok s) :
    listedAs addr proposers = some s.proposer := by
  unfold newSchedulerV2 at h
  split at h
  · cases h
  · cases h
    assumption

lemma newSchedulerV1_listedAs {addr : Address} {proposers : List Proposer}
    {parentBlockNumber : UInt32} {parentBlockTime : UInt64} {s : SchedulerV1}
    (h : newSchedulerV1 addr proposers parentBlockNumber parentBlockTime = .ok s) :
    listedAs addr proposers = some s.proposer := by
  unfold newSchedulerV1 at h
  split at h
  · cases h
  · cases h
    assumption

lemma newSchedulerV2_proposer {addr : Address} {proposers : List Proposer}
    {parentBlockNumber : UInt32} {parentBlockTime : UInt64} {seed : List UInt8} {s : SchedulerV2}
    (h : newSchedulerV2 addr proposers parentBlockNumber parentBlockTime seed = .ok s) :
    s.proposer.address = addr :=
  listedAs_address (newSchedulerV2_listedAs h)

lemma newSchedulerV1_proposer {addr : Address} {proposers : List Proposer}
    {parentBlockNumber : UInt32} {parentBlockTime : UInt64} {s : SchedulerV1}
    (h : newSchedulerV1 addr proposers parentBlockNumber parentBlockTime = .ok s) :
    s.proposer.address = addr :=
  listedAs_address (newSchedulerV1_listedAs h)

lemma SchedulerV2.nodup_updates {addr : Address} {proposers : List Proposer}
    {parentBlockNumber : UInt32} {parentBlockTime newBlockTime : UInt64} {seed : List UInt8}
    {s : SchedulerV2} (h : newSchedulerV2 addr proposers parentBlockNumber parentBlockTime seed = .ok s)
    (ht : s.isTheTime newBlockTime) (hnd : (proposers.map Proposer.address).Nodup) :
    ((s.updates newBlockTime).1.map Proposer.address).Nodup := by
  have hpassed : ((s.passed newBlockTime).filter (· ≠ s.proposer.address)).Nodup :=
    ((List.take_sublist _ _).nodup (nodup_shuffled h hnd)).filter _
  rw [s.updates_eq ht, List.map_append, List.map_map]
  refine List.nodup_append.mpr ⟨by simpa [Function.comp_def] using hpassed, ?_, ?_⟩
  · unfold activation
    split <;> simp
  · intro a ha b hb hab
    subst hab
    unfold activation at hb
    split at hb
    · simp only [List.map_cons, List.map_nil, List.mem_singleton] at hb
      subst hb
      simp [Function.comp_def] at ha
    · simp at hb

/-- At every block time the proposer is scheduled at, `Updates` of either scheduler deactivates
the other proposers whose turn fell in a passed slot and no one else, activates the proposer
exactly when it was inactive, and scores the actives less the deactivated, at least one. The
first scheduler deactivates each address once; the second does when the proposers' addresses
are distinct. -/
theorem updates_deactivate_passed (addr : Address) (proposers : List Proposer)
    (parentBlockNumber : UInt32) (parentBlockTime newBlockTime : UInt64) (seed : List UInt8) :
    (∀ s, newSchedulerV2 addr proposers parentBlockNumber parentBlockTime seed = .ok s →
      s.isTheTime newBlockTime →
        (s.updates newBlockTime).1 =
            ((s.passed newBlockTime).filter (· ≠ addr)).map (⟨·, false⟩) ++ activation s.proposer ∧
          (s.updates newBlockTime).2 =
            (s.shuffled.length - ((s.passed newBlockTime).filter (· ≠ addr)).length).toUInt64 ∧
          0 < s.shuffled.length - ((s.passed newBlockTime).filter (· ≠ addr)).length ∧
          ((proposers.map Proposer.address).Nodup →
            ((s.updates newBlockTime).1.map Proposer.address).Nodup)) ∧
    (∀ s, newSchedulerV1 addr proposers parentBlockNumber parentBlockTime = .ok s →
      s.isTheTime newBlockTime →
        ∃ deactivated : List Proposer,
          (s.updates newBlockTime).1 = deactivated ++ activation s.proposer ∧
          (∀ u, u ∈ deactivated ↔ u.active = false ∧ u.address ≠ addr ∧
            s.PassedTurn newBlockTime u.address) ∧
          (deactivated.map Proposer.address).Nodup ∧
          (s.updates newBlockTime).2 = (s.actives.length - deactivated.length).toUInt64 ∧
          0 < s.actives.length - deactivated.length) := by
  refine ⟨fun s hs ht => ?_, fun s hs ht => ?_⟩
  · obtain rfl := newSchedulerV2_proposer hs
    rw [s.updates_eq ht]
    exact ⟨rfl, rfl, Nat.sub_pos_of_lt (s.length_filter_passed_lt newBlockTime),
      fun hnd => s.updates_eq ht ▸ SchedulerV2.nodup_updates hs ht hnd⟩
  · obtain rfl := newSchedulerV1_proposer hs
    obtain ⟨deactivated, h1, h2, h3, h4, h5⟩ := s.updates_spec ht
    exact ⟨deactivated, h1, h2, h3, h4, Nat.sub_pos_of_lt h5⟩

/-- Of the four worked proposers, the third is inactive. At its slot 1060 the second
scheduler deactivates the three shuffled before it and activates it; at its slot 1110 the
first scheduler does the same for the three whose turns passed since the parent. -/
theorem updates_deactivate_passed_inactive_proposer :
    (∃ s, newSchedulerV2 (sampleAddress 3) sampleProposers 7 1000 [0x2A] = .ok s ∧
      s.isTheTime 1060 ∧
      (s.passed 1060).filter (· ≠ sampleAddress 3) =
        [sampleAddress 4, sampleAddress 2, sampleAddress 1] ∧
      (s.updates 1060).1 = [⟨sampleAddress 4, false⟩, ⟨sampleAddress 2, false⟩,
        ⟨sampleAddress 1, false⟩, ⟨sampleAddress 3, true⟩] ∧
      (s.updates 1060).2 = 1 ∧ ((s.updates 1060).1.map Proposer.address).Nodup) ∧
    (∃ s, newSchedulerV1 (sampleAddress 3) sampleProposers 7 1000 = .ok s ∧
      s.isTheTime 1110 ∧
      (s.updates 1110).1 = [⟨sampleAddress 4, false⟩, ⟨sampleAddress 1, false⟩,
        ⟨sampleAddress 2, false⟩, ⟨sampleAddress 3, true⟩] ∧
      (s.updates 1110).2 = 1 ∧
      ∀ a ∈ [sampleAddress 4, sampleAddress 1, sampleAddress 2], s.PassedTurn 1110 a) := by
  have hnodup : (sampleProposers.map Proposer.address).Nodup := by decide
  obtain ⟨h₂, -⟩ := updates_deactivate_passed (sampleAddress 3) sampleProposers 7 1000 1060 [0x2A]
  obtain ⟨-, h₁⟩ := updates_deactivate_passed (sampleAddress 3) sampleProposers 7 1000 1110 [0x2A]
  constructor
  · obtain ⟨s, hprop, hparent, hshuffled, hs⟩ : ∃ s : SchedulerV2,
        s.proposer = ⟨sampleAddress 3, false⟩ ∧ s.parentBlockTime = 1000 ∧
        s.shuffled = shuffle (hashed (sampleAddress 3) sampleProposers 7 [0x2A]) ∧
        newSchedulerV2 (sampleAddress 3) sampleProposers 7 1000 [0x2A] = .ok s :=
      ⟨_, rfl, rfl, rfl, rfl⟩
    rw [shuffle_eq_insertionSort (by decide +kernel)] at hshuffled
    have ht : s.isTheTime 1060 := by
      unfold SchedulerV2.isTheTime SchedulerV2.isScheduled
      rw [hshuffled, hprop, hparent]
      decide +kernel
    have hpassed : (s.passed 1060).filter (· ≠ sampleAddress 3) =
        [sampleAddress 4, sampleAddress 2, sampleAddress 1] := by
      unfold SchedulerV2.passed
      rw [hshuffled, hparent]
      decide +kernel
    obtain ⟨hu, hscore, -, hnd⟩ := h₂ s hs ht
    have hlen : s.shuffled.length = 4 := by
      rw [hshuffled]
      decide +kernel
    refine ⟨s, hs, ht, hpassed, ?_, ?_, hnd hnodup⟩
    · rw [hu, hpassed, hprop]
      rfl
    · rw [hscore, hlen, hpassed]
      rfl
  · obtain ⟨s, hs⟩ : ∃ s, newSchedulerV1 (sampleAddress 3) sampleProposers 7 1000 = .ok s :=
      ⟨_, rfl⟩
    have ht : s.isTheTime 1110 := by
      cases hs
      decide +kernel
    have hu : (s.updates 1110).1 = [⟨sampleAddress 4, false⟩, ⟨sampleAddress 1, false⟩,
        ⟨sampleAddress 2, false⟩, ⟨sampleAddress 3, true⟩] := by
      cases hs
      decide +kernel
    have hact : activation s.proposer = [⟨sampleAddress 3, true⟩] := by
      cases hs
      decide +kernel
    obtain ⟨deactivated, h1, h2, -, h4, -⟩ := h₁ s hs ht
    -- the deactivations are the updates less the proposer's activation
    have hd : deactivated = [⟨sampleAddress 4, false⟩, ⟨sampleAddress 1, false⟩,
        ⟨sampleAddress 2, false⟩] := by
      rw [hu, hact] at h1
      exact (List.append_cancel_right h1).symm
    refine ⟨s, hs, ht, hu, ?_, fun a ha => ((h2 ⟨a, false⟩).mp ?_).2.2⟩
    · rw [h4, hd]
      cases hs
      decide +kernel
    · rw [hd]
      simp only [List.mem_cons, List.not_mem_nil, or_false] at ha
      rcases ha with rfl | rfl | rfl <;> simp

/-- With an address listed twice, the second scheduler deactivates it twice, whatever order
the hashes put the list in. -/
theorem updates_deactivates_listed_twice :
    ∃ s t, newSchedulerV2 Address.zero [⟨⟨List.replicate 19 0 ++ [1], rfl⟩, true⟩,
        ⟨⟨List.replicate 19 0 ++ [1], rfl⟩, true⟩, ⟨Address.zero, true⟩] 0 0 [] = .ok s ∧
      s.isTheTime t ∧ (s.updates t).1 =
        [⟨⟨List.replicate 19 0 ++ [1], rfl⟩, false⟩, ⟨⟨List.replicate 19 0 ++ [1], rfl⟩, false⟩] := by
  obtain ⟨s, hprop, hparent, hshuffled, hs⟩ : ∃ s : SchedulerV2,
      s.proposer = ⟨Address.zero, true⟩ ∧ s.parentBlockTime = 0 ∧
      s.shuffled = shuffle (hashed Address.zero [⟨⟨List.replicate 19 0 ++ [1], rfl⟩, true⟩,
        ⟨⟨List.replicate 19 0 ++ [1], rfl⟩, true⟩, ⟨Address.zero, true⟩] 0 []) ∧
      newSchedulerV2 Address.zero [⟨⟨List.replicate 19 0 ++ [1], rfl⟩, true⟩,
        ⟨⟨List.replicate 19 0 ++ [1], rfl⟩, true⟩, ⟨Address.zero, true⟩] 0 0 [] = .ok s :=
    ⟨_, rfl, rfl, rfl, rfl⟩
  -- whatever order the hashes give, the list holds the address twice and the proposer once
  have hperm : s.shuffled.Perm [⟨List.replicate 19 0 ++ [1], rfl⟩, ⟨List.replicate 19 0 ++ [1], rfl⟩,
      Address.zero] := by
    rw [hshuffled, shuffle]
    refine ((List.mergeSort_perm _ _).map Prod.fst).trans ?_
    simp [hashed, activesOf]
  have hlen : s.shuffled.length = 3 := hperm.length_eq
  obtain ⟨p, hp, hget⟩ := List.getElem_of_mem (hperm.mem_iff.mpr (by simp) :
    Address.zero ∈ s.shuffled)
  have ht64 : ((10 * (p + 4) : ℕ).toUInt64).toNat = 10 * (p + 4) :=
    Word.natCast_toNat_of_lt (by omega)
  have ht : s.isTheTime (10 * (p + 4) : ℕ).toUInt64 := by
    rw [SchedulerV2.isTheTime, hprop, @SchedulerV2.isScheduled_slot s (by omega) (p + 3) 0 _
      (by rw [ht64, hparent, UInt64.toNat_zero]; ring), hlen, show (p + 3 + 0) % 3 = p by omega,
      List.getElem?_eq_getElem (by omega), hget]
  have hk := onSlot_index (s.isTheTime_onSlot ht)
  rw [hparent, ht64, UInt64.toNat_zero] at hk
  have hpassed : s.passed (10 * (p + 4) : ℕ).toUInt64 = s.shuffled := by
    rw [SchedulerV2.passed, hparent, List.take_of_length_le (by omega)]
  have hfilter : s.shuffled.filter (· ≠ Address.zero) =
      List.replicate 2 ⟨List.replicate 19 0 ++ [1], rfl⟩ := by
    have hr : ([⟨List.replicate 19 0 ++ [1], rfl⟩, ⟨List.replicate 19 0 ++ [1], rfl⟩,
        Address.zero] : List Address).filter (· ≠ Address.zero) =
        List.replicate 2 ⟨List.replicate 19 0 ++ [1], rfl⟩ := by decide
    exact List.perm_replicate.mp (hr ▸ hperm.filter _)
  refine ⟨s, _, hs, ht, ?_⟩
  rw [s.updates_eq ht, hpassed, hprop, hfilter]
  rfl

end AuthorityBlock.Poa
