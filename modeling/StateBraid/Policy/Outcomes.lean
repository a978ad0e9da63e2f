import StateBraid.Policy.Victims

/-!
# What the planners return

An admission is refused only when the limits leave no room for the entry alone. Otherwise
its plan lists what the rotation, the lineage and the pin quota evict, each at most once,
and then the victims of the capacity loop. A trim returns the victims of its loop.
-/

namespace StateBraid.Policy
open Library

variable {N : Type} [DecidableEq N]

namespace WorkingSetPolicy

/-! ## The evictions decided before the capacity loop -/

/-- The stable residents that a stable admission rotates out. -/
def rotated (p : WorkingSetPolicy N) (key : CacheKey N) (role : Role) : List (CacheKey N) :=
  if role = "stable" then (p.keysForRole "stable").filter (fun k => k ≠ key) else []

/-- The predecessor that an active admission compacts. -/
def compacted (p : WorkingSetPolicy N) (key : CacheKey N) (role : Role)
    (predecessor : Option (CacheKey N)) : List (CacheKey N) :=
  (predecessor.filter (fun pred => role = "active" ∧ p.isLineage key pred)).toList

/-- An admission whose pin would exceed the limit, or which finds the transient reserve
taken by pins. -/
def QuotaCalls (p : WorkingSetPolicy N) (key : CacheKey N) (role : Role) : Prop :=
  (role ∈ p.config.pinRoles ∧ ¬ (p.entries.get? key).any EntryState.pinned ∧
    p.pinCount ≥ p.config.pinLimit) ∨
  (role ∉ p.config.pinRoles ∧ (p.entries.get? key).isNone ∧
    p.nSequences ≥ p.config.maxSequences ∧
    p.nSequences - p.pinCount < p.config.transientReserve ∧ p.pinCount > 0)

instance (p : WorkingSetPolicy N) (key : CacheKey N) (role : Role) :
    Decidable (p.QuotaCalls key role) := inferInstanceAs (Decidable (_ ∨ _))

/-- The pin that then makes room. -/
def quotaPin (p : WorkingSetPolicy N) (key : CacheKey N) (role : Role) : List (CacheKey N) :=
  if p.QuotaCalls key role then ((p.oldestPin ∅).filter (fun k => k ≠ key)).toList else []

variable {p : WorkingSetPolicy N} {key k : CacheKey N} {role : Role} {nbytes : ℤ}
variable {predecessor : Option (CacheKey N)}

/-- Candidates that are pairwise distinct and new are all written down, but for the key. -/
theorem foldl_addEvict (key : CacheKey N) (reason : EvictionReason) (keys : List (CacheKey N))
    (evictions : List (Eviction N)) (hnodup : keys.Nodup)
    (hnew : ∀ k ∈ keys, k ∉ evictedKeys evictions) :
    keys.foldl (fun ev k => addEvict key ev (some k) reason) evictions =
      evictions ++ (keys.filter (fun k => k ≠ key)).map (fun k => ⟨k, reason⟩) := by
  induction keys generalizing evictions with
  | nil => simp
  | cons k keys ih =>
    obtain ⟨hk, hrest⟩ := List.nodup_cons.mp hnodup
    have htail : ∀ j ∈ keys, j ∉ evictedKeys evictions := fun j hj =>
      hnew j (List.mem_cons_of_mem k hj)
    rw [List.foldl_cons]
    by_cases hself : k = key
    · rw [addEvict, if_neg (by simp [hself]), ih _ hrest htail, List.filter_cons_of_neg (by simpa)]
    · have hadd : addEvict key evictions (some k) reason = evictions ++ [⟨k, reason⟩] :=
        if_pos ⟨hself, hnew k List.mem_cons_self⟩
      rw [hadd, ih _ hrest, List.filter_cons_of_pos (by simpa), List.map_cons, List.append_assoc,
        List.singleton_append]
      intro j hj
      rw [evictedKeys_snoc, Finset.mem_insert, not_or]
      exact ⟨fun he => hk (he ▸ hj), htail j hj⟩

theorem rotateStable_eq (p : WorkingSetPolicy N) (key : CacheKey N) (role : Role) :
    p.rotateStable key role = (p.rotated key role).map (fun k => ⟨k, .stableRotate⟩) := by
  unfold rotateStable rotated
  split_ifs
  · exact foldl_addEvict key .stableRotate _ [] (Dict.keys_nodup _) (by simp)
  · rfl

/-- The conditions on a predecessor, one by one. -/
theorem isLineage_iff {pred : CacheKey N} : p.isLineage key pred = true ↔
    p.roleOf pred = some "active" ∧ pred.cacheNamespace = key.cacheNamespace ∧
      pred.tokens <+: key.tokens ∧ pred.tokens ≠ key.tokens := by
  unfold isLineage roleOf
  cases hget : p.entries.get? pred with
  | none => simp
  | some e =>
    simp only [decide_eq_true_eq, Option.map_some, Option.some.injEq]
    constructor
    · rintro ⟨hrole, hspace, hlength, htake⟩
      refine ⟨hrole, hspace, List.prefix_iff_eq_take.mpr htake.symm, fun heq => ?_⟩
      rw [heq] at hlength
      exact lt_irrefl _ hlength
    · rintro ⟨hrole, hspace, hprefix, hne⟩
      have hlength := hprefix.length_le
      refine ⟨hrole, hspace, lt_of_le_of_ne hlength fun heq => hne ?_, ?_⟩
      · exact hprefix.eq_of_length heq
      · exact (List.prefix_iff_eq_take.mp hprefix).symm

theorem isLineage_ne {pred : CacheKey N} (h : p.isLineage key pred = true) : pred ≠ key := by
  rintro rfl
  exact (isLineage_iff.mp h).2.2.2 rfl

theorem mem_compacted : k ∈ p.compacted key role predecessor ↔
    predecessor = some k ∧ role = "active" ∧ p.isLineage key k = true := by
  simp [compacted, Option.filter_eq_some_iff]

theorem compacted_active (hk : k ∈ p.compacted key role predecessor) :
    p.roleOf k = some "active" := (isLineage_iff.mp (mem_compacted.mp hk).2.2).1

theorem compactLineage_eq (p : WorkingSetPolicy N) (key : CacheKey N) (role : Role)
    (predecessor : Option (CacheKey N)) :
    p.compactLineage key role predecessor (p.rotateStable key role) =
      p.rotateStable key role ++
        (p.compacted key role predecessor).map (fun k => ⟨k, .activeSuccessor⟩) := by
  unfold compactLineage compacted
  cases predecessor with
  | none => simp
  | some pred =>
    dsimp only
    split_ifs with h
    · obtain ⟨rfl, hlineage⟩ := h
      have hempty : p.rotateStable key "active" = [] := if_neg (by decide)
      have hself := isLineage_ne hlineage
      rw [hempty]
      simp [addEvict, hself, Option.filter, hlineage]
    · simp [Option.filter, h]

/-- A pin that is found is under a pinned role without a rank of its own. -/
theorem roleOf_of_oldestPin (h : p.Represents) {excluding : Finset (CacheKey N)}
    (hfound : p.oldestPin excluding = some k) :
    ∃ r, p.roleOf k = some r ∧ r ∈ p.config.pinRoles ∧ roleRanks.lookup r = none := by
  obtain ⟨r, hr, hmem⟩ := List.mem_flatMap.mp (List.mem_of_find?_eq_some hfound)
  have hmark := (List.mem_filter.mp (mem_sortByRank.mp hr)).2
  exact ⟨r, h.mem_keysForRole.mp hmem, pinRankMin_le_rank.mp (of_decide_eq_true hmark)⟩

/-- Working residents are no pins to be found. -/
theorem oldestPin_of_working (h : p.Represents) {excluding : Finset (CacheKey N)}
    (hworking : excluding ⊆ p.workingKeys) : p.oldestPin excluding = p.oldestPin ∅ := by
  unfold oldestPin
  refine List.find?_congr fun k hk => ?_
  obtain ⟨r, hr, hmem⟩ := List.mem_flatMap.mp hk
  have hmark := (List.mem_filter.mp (mem_sortByRank.mp hr)).2
  have hown := (pinRankMin_le_rank.mp (of_decide_eq_true hmark)).2
  have hrole := h.mem_keysForRole.mp hmem
  have hnot : k ∉ excluding := by
    intro hk
    have hlane := hworking hk
    rw [workingKeys, List.mem_toFinset, List.mem_append, h.mem_keysForRole, h.mem_keysForRole,
      hrole] at hlane
    rcases hlane with hlane | hlane
    all_goals
      obtain rfl := Option.some.inj hlane
      exact absurd hown (by decide)
  simp [hnot]

theorem mem_workingKeys (h : p.Represents) :
    k ∈ p.workingKeys ↔ p.roleOf k = some "stable" ∨ p.roleOf k = some "active" := by
  rw [workingKeys, List.mem_toFinset, List.mem_append, h.mem_keysForRole, h.mem_keysForRole]

theorem mem_rotated (h : p.Represents) :
    k ∈ p.rotated key role ↔ role = "stable" ∧ p.roleOf k = some "stable" ∧ k ≠ key := by
  unfold rotated
  split_ifs with hrole
  · rw [List.mem_filter, h.mem_keysForRole, decide_eq_true_eq]
    simp [hrole]
  · simp [hrole]

theorem mem_quotaPin : k ∈ p.quotaPin key role ↔
    p.QuotaCalls key role ∧ p.oldestPin ∅ = some k ∧ k ≠ key := by
  unfold quotaPin
  split_ifs with hcalls
  · simp [hcalls, Option.filter_eq_some_iff]
  · simp [hcalls]

/-- Lanes and lineage are evicted from the working set, the quota takes a pin outside. -/
theorem rotated_compacted_working (h : p.Represents)
    (hk : k ∈ p.rotated key role ∨ k ∈ p.compacted key role predecessor) : k ∈ p.workingKeys := by
  rw [mem_workingKeys h]
  rcases hk with hk | hk
  · exact Or.inl ((mem_rotated h).mp hk).2.1
  · exact Or.inr (compacted_active hk)

theorem quotaPin_not_working (h : p.Represents) (hk : k ∈ p.quotaPin key role) :
    k ∉ p.workingKeys := by
  obtain ⟨r, hr, -, hown⟩ := roleOf_of_oldestPin h (mem_quotaPin.mp hk).2.1
  rw [mem_workingKeys h, hr]
  rintro (hlane | hlane)
  all_goals
    obtain rfl := Option.some.inj hlane
    exact absurd hown (by decide)

/-- The three rules, one after the other, never write a key down twice. -/
theorem priorEvictions_eq (h : p.Represents) (key : CacheKey N) (role : Role)
    (predecessor : Option (CacheKey N)) :
    p.priorEvictions key role predecessor =
      (p.rotated key role).map (fun k => ⟨k, .stableRotate⟩) ++
        (p.compacted key role predecessor).map (fun k => ⟨k, .activeSuccessor⟩) ++
        (p.quotaPin key role).map (fun k => ⟨k, .pinQuota⟩) := by
  unfold priorEvictions
  rw [compactLineage_eq, rotateStable_eq]
  generalize hlanes : (p.rotated key role).map (fun k => (⟨k, .stableRotate⟩ : Eviction N)) ++
    (p.compacted key role predecessor).map (fun k => ⟨k, .activeSuccessor⟩) = lanes
  have hworking : evictedKeys lanes ⊆ p.workingKeys := by
    intro k hk
    rw [← hlanes, evictedKeys_append, Finset.mem_union, List.mem_toFinset] at hk
    have hlane : k ∈ p.rotated key role ∨ k ∈ p.compacted key role predecessor :=
      hk.imp_left fun hk => by simpa [evictedKeys, Function.comp_def] using hk
    exact rotated_compacted_working h hlane
  have hquota : p.enforcePinQuota key role lanes =
      if p.QuotaCalls key role then addEvict key lanes (p.oldestPin ∅) .pinQuota else lanes := by
    unfold enforcePinQuota
    dsimp only
    rw [oldestPin_of_working h hworking]
    split
    · exact (if_pos (Or.inl (by assumption))).symm
    · split
      · exact (if_pos (Or.inr (by assumption))).symm
      · exact (if_neg (not_or.mpr ⟨by assumption, by assumption⟩)).symm
  rw [hquota]
  unfold quotaPin
  split_ifs with hcalls
  · cases hpin : p.oldestPin ∅ with
    | none => simp [addEvict]
    | some pin =>
      by_cases hself : pin = key
      · simp [addEvict, hself, Option.filter]
      · have hfresh : pin ∉ evictedKeys lanes := fun hmem =>
          quotaPin_not_working h (mem_quotaPin.mpr ⟨hcalls, hpin, hself⟩) (hworking hmem)
        simp [addEvict, hself, hfresh, Option.filter]
  · simp

theorem mem_evictedKeys_prior (h : p.Represents) :
    k ∈ evictedKeys (p.priorEvictions key role predecessor) ↔
      k ∈ p.rotated key role ∨ k ∈ p.compacted key role predecessor ∨ k ∈ p.quotaPin key role := by
  rw [priorEvictions_eq h, evictedKeys_append, evictedKeys_append, Finset.mem_union,
    Finset.mem_union, List.mem_toFinset, List.mem_toFinset, or_assoc]
  simp [evictedKeys, Function.comp_def]

theorem evictions_map_key {N : Type} (keys : List (CacheKey N)) (reason : EvictionReason) :
    (keys.map (fun k => (⟨k, reason⟩ : Eviction N))).map Eviction.key = keys := by
  simp [Function.comp_def]

theorem toList_nodup {α : Type} (o : Option α) : o.toList.Nodup := by
  cases o <;> simp

theorem rotated_disjoint_compacted (hk : k ∈ p.rotated key role) :
    k ∉ p.compacted key role predecessor := by
  intro hother
  unfold rotated at hk
  split_ifs at hk with hrole
  · rw [(mem_compacted.mp hother).2.1] at hrole
    exact absurd hrole (by decide)
  · simp at hk

/-- The keys of the three rules are pairwise distinct. -/
theorem priorKeys_nodup (h : p.Represents) (key : CacheKey N) (role : Role)
    (predecessor : Option (CacheKey N)) :
    ((p.priorEvictions key role predecessor).map Eviction.key).Nodup := by
  rw [priorEvictions_eq h, List.map_append, List.map_append, evictions_map_key, evictions_map_key,
    evictions_map_key]
  have hrotated : (p.rotated key role).Nodup := by
    unfold rotated
    split_ifs
    · exact (Dict.keys_nodup _).filter _
    · exact List.nodup_nil
  have hquota : (p.quotaPin key role).Nodup := by
    unfold quotaPin
    split_ifs
    · exact toList_nodup _
    · exact List.nodup_nil
  refine List.nodup_append'.mpr ⟨List.nodup_append'.mpr ⟨hrotated, toList_nodup _, ?_⟩, hquota, ?_⟩
  · exact fun k hk => rotated_disjoint_compacted hk
  · intro k hk hpin
    exact quotaPin_not_working h hpin (rotated_compacted_working h (List.mem_append.mp hk))

/-- No rule evicts the admitted key. -/
theorem prior_ne_key (h : p.Represents)
    (hk : k ∈ evictedKeys (p.priorEvictions key role predecessor)) : k ≠ key := by
  rcases (mem_evictedKeys_prior h).mp hk with hk | hk | hk
  · exact ((mem_rotated h).mp hk).2.2
  · exact isLineage_ne (mem_compacted.mp hk).2.2
  · exact (mem_quotaPin.mp hk).2.2

/-! ## Admissions -/

/-- The entry alone leaves room within the limits. -/
def Admissible (p : WorkingSetPolicy N) (nbytes : ℤ) : Prop :=
  0 < p.config.maxSequences ∧ 0 < p.config.maxBytes ∧ max 0 nbytes ≤ p.config.maxBytes

instance (p : WorkingSetPolicy N) (nbytes : ℤ) : Decidable (p.Admissible nbytes) :=
  inferInstanceAs (Decidable (_ ∧ _))

/-- Any other entry is refused without evictions, for one of two reasons. -/
theorem planAdmission_refused (h : ¬ p.Admissible nbytes) (key : CacheKey N) (role : Role)
    (predecessor : Option (CacheKey N)) :
    ∃ reason, (reason = .zeroCapacity ∨ reason = .oversized) ∧
      p.planAdmission key role nbytes predecessor =
        ⟨false, key, role, max 0 nbytes, [], reason⟩ := by
  unfold planAdmission
  dsimp only
  split_ifs with hzero hlarge
  · exact ⟨_, Or.inl rfl, rfl⟩
  · exact ⟨_, Or.inr rfl, rfl⟩
  · exact absurd ⟨by omega, by omega, not_lt.mp hlarge⟩ h

/-- What the capacity loop takes from its queue. -/
def Takes (p : WorkingSetPolicy N) (key : CacheKey N) (role : Role) (nbytes : ℤ)
    (predecessor : Option (CacheKey N)) (taken : List (CacheKey N)) : Prop :=
  ShortestPrefix
    (fun u => p.projectedOverLimit key (max 0 nbytes)
      (evictedKeys (p.priorEvictions key role predecessor) ∪ u.toFinset) = false)
    (p.victimQueue
      (p.protectedKeys key role (max 0 nbytes) (p.priorEvictions key role predecessor))
      (insert key (evictedKeys (p.priorEvictions key role predecessor)))) taken

theorem victimQueue_length_le (p : WorkingSetPolicy N) (guarded excluded : Finset (CacheKey N)) :
    (p.victimQueue guarded excluded).length ≤ p.orderedKeys.length := by
  rw [victimQueue, (deferring_perm _ _).length_eq]
  exact List.length_filter_le _ _

theorem Chronological.victimQueue_nodup (h : p.Chronological)
    (guarded excluded : Finset (CacheKey N)) : (p.victimQueue guarded excluded).Nodup := by
  rw [victimQueue, (deferring_perm _ _).nodup_iff]
  exact h.orderedKeys_nodup.filter _

/-- Evicting everything but the entry is enough, so the loop always ends with enough. -/
theorem Chronological.exists_takes (h : p.Chronological) (hroom : p.Admissible nbytes)
    (key : CacheKey N) (role : Role) (predecessor : Option (CacheKey N)) :
    ∃ taken, p.Takes key role nbytes predecessor taken := by
  refine ShortestPrefix.exists_of_all ?_
  generalize p.priorEvictions key role predecessor = prior
  have hnone : (p.residents \ (evictedKeys prior ∪ (p.victimQueue
      (p.protectedKeys key role (max 0 nbytes) prior)
      (insert key (evictedKeys prior))).toFinset)).erase key = ∅ := by
    refine Finset.eq_empty_of_forall_notMem fun k hk => ?_
    simp only [Finset.mem_erase, Finset.mem_sdiff, Finset.mem_union, List.mem_toFinset,
      mem_residents, not_or, h.mem_victimQueue, Finset.mem_insert] at hk
    exact hk.2.2.2 ⟨hk.2.1, hk.1, hk.2.2.1⟩
  rw [projectedOverLimit_eq_false, hnone]
  obtain ⟨hsequences, -, hbytes⟩ := hroom
  refine ⟨by rwa [Finset.card_empty, zero_add], ?_⟩
  rw [bytesOf, Finset.sum_empty, zero_add]
  exact hbytes

/-- An accepted plan is what the three rules evict and then what the loop takes. -/
theorem Chronological.planAdmission_eq (h : p.Chronological) (hroom : p.Admissible nbytes)
    {taken : List (CacheKey N)} (htaken : p.Takes key role nbytes predecessor taken) :
    p.planAdmission key role nbytes predecessor =
      ⟨true, key, role, max 0 nbytes, p.priorEvictions key role predecessor ++
        taken.map (fun k => ⟨k, .capacity⟩), .admitted⟩ := by
  have hloop := h.capacityLoop_takes (p.victimQueue_length_le _ _) htaken
  obtain ⟨hsequences, hpositive, hbytes⟩ := hroom
  unfold planAdmission
  dsimp only
  rw [if_neg (by omega), if_neg (not_lt.mpr hbytes), hloop]

/-- More iterations than there are residents change nothing. -/
theorem Chronological.capacityLoop_terminates (h : p.Chronological) (hroom : p.Admissible nbytes)
    (key : CacheKey N) (role : Role) (predecessor : Option (CacheKey N)) {fuel : ℕ}
    (hfuel : p.orderedKeys.length ≤ fuel) :
    p.capacityLoop key (max 0 nbytes)
        (p.protectedKeys key role (max 0 nbytes) (p.priorEvictions key role predecessor)) fuel
        (p.priorEvictions key role predecessor) =
      ((p.planAdmission key role nbytes predecessor).evictions, true) := by
  obtain ⟨taken, htaken⟩ := h.exists_takes hroom key role predecessor
  rw [h.planAdmission_eq hroom htaken]
  exact h.capacityLoop_takes ((p.victimQueue_length_le _ _).trans hfuel) htaken

theorem Chronological.planAdmission_accepted_iff (h : p.Chronological) (key : CacheKey N)
    (role : Role) (nbytes : ℤ) (predecessor : Option (CacheKey N)) :
    (p.planAdmission key role nbytes predecessor).accepted = true ↔ p.Admissible nbytes := by
  refine ⟨planAdmission_accepted, fun hroom => ?_⟩
  obtain ⟨taken, htaken⟩ := h.exists_takes hroom key role predecessor
  rw [h.planAdmission_eq hroom htaken]

/-- The evicted keys of an accepted plan. -/
theorem Chronological.mem_evictedKeys_plan (h : p.Chronological) (hroom : p.Admissible nbytes)
    {taken : List (CacheKey N)} (htaken : p.Takes key role nbytes predecessor taken) :
    k ∈ evictedKeys (p.planAdmission key role nbytes predecessor).evictions ↔
      k ∈ evictedKeys (p.priorEvictions key role predecessor) ∨ k ∈ taken := by
  rw [h.planAdmission_eq hroom htaken, evictedKeys_append, Finset.mem_union, List.mem_toFinset]

/-- What the loop takes is resident, and neither the admitted key nor evicted before. -/
theorem Chronological.mem_of_taken (h : p.Chronological) {taken : List (CacheKey N)}
    (htaken : p.Takes key role nbytes predecessor taken) (hk : k ∈ taken) :
    k ∈ p.entries.keys ∧ k ≠ key ∧
      k ∉ evictedKeys (p.priorEvictions key role predecessor) := by
  have hmem := h.mem_victimQueue.mp (htaken.isPrefix.subset hk)
  rwa [Finset.mem_insert, not_or] at hmem

/-! ## Trims -/

/-- The targets of a trim: a missing one is the limit, a negative one is zero. -/
def trimTargets (p : WorkingSetPolicy N) (nSequences nBytes : Option ℤ) : ℕ × ℕ :=
  ((nSequences.map Int.toNat).getD p.config.maxSequences,
    (nBytes.map Int.toNat).getD p.config.maxBytes)

/-- The working set, as long as it is within the targets. -/
def trimProtection (p : WorkingSetPolicy N) (targets : ℕ × ℕ) : Finset (CacheKey N) :=
  if p.Within p.workingKeys targets.1 targets.2 then p.workingKeys else ∅

/-- What a trim takes. -/
def TrimTakes (p : WorkingSetPolicy N) (targets : ℕ × ℕ) (taken : List (CacheKey N)) : Prop :=
  ShortestPrefix (fun u => p.overTargets targets.1 targets.2 u.toFinset = false)
    (p.victimQueue (p.trimProtection targets) ∅) taken

theorem Chronological.exists_trimTakes (h : p.Chronological) (targets : ℕ × ℕ) :
    ∃ taken, p.TrimTakes targets taken := by
  refine ShortestPrefix.exists_of_all ?_
  have hnone : p.residents \ (p.victimQueue (p.trimProtection targets) ∅).toFinset = ∅ := by
    refine Finset.eq_empty_of_forall_notMem fun k hk => ?_
    simp only [Finset.mem_sdiff, List.mem_toFinset, mem_residents, h.mem_victimQueue,
      Finset.notMem_empty, not_false_eq_true, and_true] at hk
    exact hk.2 hk.1
  rw [overTargets_eq_false, hnone]
  simp [Within, bytesOf]

/-- A trim never raises, and its victims are what it takes. -/
theorem Chronological.planTrim_eq (h : p.Chronological) {nSequences nBytes : Option ℤ}
    {taken : List (CacheKey N)} (htaken : p.TrimTakes (p.trimTargets nSequences nBytes) taken) :
    p.planTrim nSequences nBytes = .ok ⟨taken.map (fun k => ⟨k, .trim⟩)⟩ := by
  have hsound : ¬ ∃ k ∈ p.workingKeys, p.entries.get? k = none := by
    rintro ⟨k, hk, hnone⟩
    have hmem : k ∈ p.entries.keys :=
      ((mem_workingKeys h.toRepresents).mp hk).elim mem_keys_of_roleOf mem_keys_of_roleOf
    exact Dict.get?_eq_none_iff.mp hnone hmem
  have hguard : (if p.workingKeys.card > (p.trimTargets nSequences nBytes).1 ∨
      p.bytesOf p.workingKeys > (p.trimTargets nSequences nBytes).2 then ∅ else p.workingKeys) =
      p.trimProtection (p.trimTargets nSequences nBytes) := by
    by_cases hwithin : p.Within p.workingKeys (p.trimTargets nSequences nBytes).1
        (p.trimTargets nSequences nBytes).2
    · rw [trimProtection, if_pos hwithin, if_neg]
      exact not_or.mpr ⟨not_lt.mpr hwithin.1, not_lt.mpr hwithin.2⟩
    · rw [trimProtection, if_neg hwithin, if_pos]
      exact (not_and_or.mp hwithin).imp not_le.mp not_le.mp
  generalize htargets : p.trimTargets nSequences nBytes = targets at *
  have hloop : p.trimLoop targets.1 targets.2 (p.trimProtection targets) p.orderedKeys.length [] =
      [] ++ taken.map (fun k => ⟨k, .trim⟩) :=
    h.trimLoop_takes (p.victimQueue_length_le _ _) (by simpa [TrimTakes] using htaken)
  subst htargets
  unfold planTrim
  dsimp only
  rw [if_neg hsound]
  rw [← hguard] at hloop
  exact congrArg (fun evictions => Except.ok (TrimPlan.mk evictions)) hloop

end WorkingSetPolicy

end StateBraid.Policy
