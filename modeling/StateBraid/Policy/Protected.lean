import StateBraid.Policy.WorkingSet

/-!
# Who survives an admission

The working set survives where it fits with the admitted entry. A transient admission
protects it also where it does not, and then takes it as soon as nothing else is left. An
active admission drops the protection altogether when stale branches do not fit, and then
only the pins stand behind the stable resident.
-/

namespace StateBraid.Policy
open Library

variable {N : Type} [DecidableEq N]

namespace WorkingSetPolicy

variable {p : WorkingSetPolicy N} {key k : CacheKey N} {role : Role} {nbytes : ℤ}
variable {predecessor : Option (CacheKey N)}

theorem refused_evicts_nothing (hroom : ¬ p.Admissible nbytes) :
    evictedKeys (p.planAdmission key role nbytes predecessor).evictions = ∅ := by
  obtain ⟨reason, -, hplan⟩ := planAdmission_refused hroom key role predecessor
  rw [hplan]
  rfl

/-- Who stays of the working set before the capacity loop. -/
theorem mem_working_kept (h : p.Represents) :
    k ∈ p.workingKeys \ evictedKeys (p.priorEvictions key role predecessor) ↔
      k ∈ p.workingKeys ∧ k ∉ p.rotated key role ∧ k ∉ p.compacted key role predecessor := by
  rw [Finset.mem_sdiff, mem_evictedKeys_prior h, not_or, not_or]
  constructor
  · rintro ⟨hworking, hrotated, hcompacted, -⟩
    exact ⟨hworking, hrotated, hcompacted⟩
  · rintro ⟨hworking, hrotated, hcompacted⟩
    exact ⟨hworking, hrotated, hcompacted, fun hpin => quotaPin_not_working h hpin hworking⟩

/-- An admission into the working set protects what stays of it if that fits. -/
theorem protection_of_working (hrole : role = "stable" ∨ role = "active")
    {evicted : Finset (CacheKey N)}
    (hfits : p.FitsWith ((p.workingKeys \ evicted).erase key) nbytes) :
    p.protection key role nbytes evicted = p.workingKeys \ evicted := by
  refine if_pos ?_
  rw [WorkingFits, if_pos (or_assoc.mp (Or.inl hrole))]
  exact hfits

/-! ## A working admission that fits -/

/-- The stable and active residents besides the admitted one that the plan neither rotates
nor compacts. -/
def workingBeside (p : WorkingSetPolicy N) (key : CacheKey N) (evictions : List (Eviction N)) :
    Finset (CacheKey N) :=
  p.workingKeys.filter (fun k => k ≠ key ∧
    k ∉ evictedFor .stableRotate evictions ∧ k ∉ evictedFor .activeSuccessor evictions)

theorem mem_evictedFor {N : Type} {k : CacheKey N} {reason : EvictionReason}
    {evictions : List (Eviction N)} :
    k ∈ evictedFor reason evictions ↔ ⟨k, reason⟩ ∈ evictions := by
  simp only [evictedFor, List.mem_map, List.mem_filter, decide_eq_true_eq]
  constructor
  · rintro ⟨e, ⟨he, rfl⟩, rfl⟩
    exact he
  · intro he
    exact ⟨_, ⟨he, rfl⟩, rfl⟩

theorem Chronological.workingBeside_eq (h : p.Chronological) (hroom : p.Admissible nbytes)
    (key : CacheKey N) (role : Role) (predecessor : Option (CacheKey N)) :
    p.workingBeside key (p.planAdmission key role nbytes predecessor).evictions =
      (p.workingKeys \ evictedKeys (p.priorEvictions key role predecessor)).erase key := by
  obtain ⟨taken, htaken⟩ := h.exists_takes hroom key role predecessor
  ext k
  rw [workingBeside, Finset.mem_filter, Finset.mem_erase, mem_working_kept h.toRepresents,
    mem_evictedFor, mem_evictedFor, h.mem_plan hroom htaken, h.mem_plan hroom htaken]
  simp only [reduceCtorEq, false_and, true_and, false_or, or_false]
  exact and_left_comm

/-- The working set is spared by an admission that it fits with. -/
theorem Chronological.spares_workingBeside (h : p.Chronological) (hlimits : p.WithinLimits)
    (hrole : role = "stable" ∨ role = "active")
    (hfits : p.FitsWith (p.workingBeside key
      (p.planAdmission key role nbytes predecessor).evictions) (max 0 nbytes))
    (hk : k ∈ p.workingBeside key (p.planAdmission key role nbytes predecessor).evictions) :
    k ∉ evictedKeys (p.planAdmission key role nbytes predecessor).evictions := by
  by_cases hroom : p.Admissible nbytes
  · obtain ⟨taken, htaken⟩ := h.exists_takes hroom key role predecessor
    rw [h.workingBeside_eq hroom] at hfits hk
    have hguarded := protection_of_working hrole hfits
    have hkept := Finset.mem_of_mem_erase hk
    intro hevicted
    rcases (h.mem_evictedKeys_plan hroom htaken).mp hevicted with hprior | htake
    · exact (Finset.mem_sdiff.mp hkept).2 hprior
    · refine h.spares_protected hlimits htaken ?_ htake ?_
      · rwa [hguarded]
      · rwa [hguarded]
  · rw [refused_evicts_nothing hroom]
    exact Finset.notMem_empty k

/-- The working set is spared by a trim that it is within the targets of. -/
theorem Chronological.trim_spares_working (h : p.Chronological) (hlimits : p.WithinLimits)
    {nSequences nBytes : Option ℤ} {plan : TrimPlan N}
    (hplan : p.planTrim nSequences nBytes = .ok plan)
    (hwithin : p.Within p.workingKeys (p.trimTargets nSequences nBytes).1
      (p.trimTargets nSequences nBytes).2) (hk : k ∈ p.workingKeys) :
    k ∉ evictedKeys plan.evictions := by
  obtain ⟨plan', hplan', hshort, -⟩ := h.planTrim_shortest nSequences nBytes
  obtain rfl : plan' = plan := Except.ok.inj (hplan'.symm.trans hplan)
  have hvictims := hshort.victims
  rw [trimProtection, if_pos hwithin] at hvictims
  have hfront : plan'.evictions.map Eviction.key <+:
      p.orderedKeys.filter (fun k => k ∉ p.workingKeys) := by
    refine hvictims.prefix_of (List.prefix_append _ _) (hwithin.mono hlimits ?_)
    intro k hk
    simp only [Finset.mem_sdiff, List.mem_toFinset, List.mem_filter, mem_residents,
      h.mem_orderedKeys, decide_eq_true_eq, not_and, not_not] at hk
    exact hk.2 hk.1
  intro hevicted
  have hout := hfront.subset (List.mem_toFinset.mp hevicted)
  exact of_decide_eq_true (List.mem_filter.mp hout).2 hk

/-! ## A transient admission -/

/-- A new transient entry spares the working set exactly when it fits beside it. -/
theorem Regular.transient_spares_working_iff (h : p.Regular) (hroom : p.Admissible nbytes)
    (hnew : key ∉ p.entries.keys) (hrole : role ≠ "stable" ∧ role ≠ "active") :
    (∀ k ∈ p.workingKeys, k ∉ evictedKeys (p.planAdmission key role nbytes predecessor).evictions) ↔
      p.FitsWith p.workingKeys (max 0 nbytes) := by
  have hchron := h.toChronological
  obtain ⟨taken, htaken⟩ := hchron.exists_takes hroom key role predecessor
  have hresident := workingKeys_subset hchron.toRepresents
  have houtside : key ∉ p.workingKeys := fun hk => hnew (mem_residents.mp (hresident hk))
  have hkept : p.workingKeys \ evictedKeys (p.priorEvictions key role predecessor) =
      p.workingKeys := by
    ext k
    rw [mem_working_kept hchron.toRepresents, mem_rotated hchron.toRepresents, mem_compacted]
    simp [hrole.1, hrole.2]
  constructor
  · intro hspared
    have henough := ((takes_iff hchron.toRepresents).mp htaken).enough
    refine henough.mono h.limits fun k hk => ?_
    have hstays := hspared k hk
    rw [hchron.mem_evictedKeys_plan hroom htaken] at hstays
    rw [Finset.mem_erase, Finset.mem_sdiff, Finset.mem_union, List.mem_toFinset]
    exact ⟨fun he : k = key => houtside (he ▸ hk), hresident hk, hstays⟩
  · intro hfits k hk hevicted
    have hall : p.Fits p.workingKeys :=
      ⟨by have := hfits.1; omega, by have := hfits.2; omega⟩
    have hworking : p.WorkingFits key role (max 0 nbytes) p.workingKeys := by
      rw [WorkingFits, if_neg (by simp [hrole.1, hrole.2, houtside])]
      exact hall
    have hguarded : p.protection key role (max 0 nbytes)
        (evictedKeys (p.priorEvictions key role predecessor)) = p.workingKeys := by
      rw [protection, hkept, if_pos hworking]
    rcases (hchron.mem_evictedKeys_plan hroom htaken).mp hevicted with hprior | htake
    · exact (Finset.mem_sdiff.mp (hkept ▸ hk)).2 hprior
    · refine hchron.spares_protected h.limits htaken ?_ htake (hguarded ▸ hk)
      rwa [hguarded, Finset.erase_eq_of_notMem houtside]

/-! ## The stable resident under an active admission -/

/-- The stable and active residents besides the admitted key, without a predecessor that an
active admission compacts. -/
def lanesBeside (p : WorkingSetPolicy N) (key : CacheKey N) (predecessor : Option (CacheKey N)) :
    Finset (CacheKey N) :=
  (p.workingKeys \ (p.compacted key "active" predecessor).toFinset).erase key

/-- The residents behind the lanes: those under a pinned role without a rank of its own,
without the one that the pin quota takes. -/
def pinsBeside (p : WorkingSetPolicy N) (key : CacheKey N) (role : Role) : Finset (CacheKey N) :=
  ((p.residents.filter (fun k => (p.roleOf k).any (fun r => pinRankMin ≤ p.rank r))) \
    (p.quotaPin key role).toFinset).erase key

theorem rank_stable {N : Type} (p : WorkingSetPolicy N) : p.rank "stable" = 70 := by
  unfold rank
  split_ifs <;> rfl

theorem lookup_mem_roleRanks {r : Role} {own : ℕ} (h : roleRanks.lookup r = some own) :
    (r, own) ∈ roleRanks := by
  obtain ⟨before, after, heq, -⟩ := List.lookup_eq_some_iff.mp h
  exact heq ▸ List.mem_append_right _ List.mem_cons_self

/-- A role with a rank of its own has that rank, pinned or not. -/
theorem rank_of_lookup {N : Type} {p : WorkingSetPolicy N} {r : Role} {own : ℕ}
    (h : roleRanks.lookup r = some own) :
    p.rank r = own := by
  unfold rank
  rw [h]
  split_ifs <;> rfl

/-- Only the stable role itself and the pins reach the rank of the stable lane. -/
theorem stable_or_pin_of_rank {N : Type} {p : WorkingSetPolicy N} {r : Role}
    (hrank : 70 ≤ p.rank r) :
    r = "stable" ∨ pinRankMin ≤ p.rank r := by
  cases hlookup : roleRanks.lookup r with
  | some own =>
    rw [rank_of_lookup hlookup] at hrank
    have hall : ∀ kv ∈ roleRanks, 70 ≤ kv.2 → kv.1 = "stable" := by decide
    exact Or.inl (hall _ (lookup_mem_roleRanks hlookup) hrank)
  | none =>
    refine Or.inr ?_
    by_cases hpinned : r ∈ p.config.pinRoles
    · exact pinRankMin_le_rank.mpr ⟨hpinned, hlookup⟩
    · rw [rank, if_neg hpinned, hlookup] at hrank
      exact absurd hrank (by decide)

theorem mem_pinsBeside : k ∈ p.pinsBeside key role ↔
    k ≠ key ∧ (∃ r, p.roleOf k = some r ∧ pinRankMin ≤ p.rank r) ∧ k ∉ p.quotaPin key role := by
  simp only [pinsBeside, Finset.mem_erase, Finset.mem_sdiff, Finset.mem_filter, List.mem_toFinset,
    mem_residents, Option.any_eq_true, decide_eq_true_eq]
  constructor
  · rintro ⟨hne, ⟨-, hpin⟩, hquota⟩
    exact ⟨hne, hpin, hquota⟩
  · rintro ⟨hne, ⟨r, hr, hpin⟩, hquota⟩
    exact ⟨hne, ⟨mem_keys_of_roleOf hr, r, hr, hpin⟩, hquota⟩

/-- A resident that a prefix of the order leaves behind the stable one is a pin. -/
theorem Regular.pin_of_behind_stable (h : p.Regular) {stable : CacheKey N}
    (hstable : p.roleOf stable = some "stable") (hbehind : p.Precedes stable k) :
    ∃ r, p.roleOf k = some r ∧ pinRankMin ≤ p.rank r := by
  obtain ⟨r, hr⟩ : ∃ r, p.roleOf k = some r := by
    obtain ⟨-, r, -, hr, -⟩ := hbehind
    exact ⟨r, hr⟩
  have hrank := hbehind.rank_le hstable hr
  rw [rank_stable] at hrank
  rcases stable_or_pin_of_rank hrank with rfl | hpin
  · obtain rfl := h.lane_unique hstable hr
    exact absurd hbehind hbehind.asymm
  · exact ⟨r, hr, hpin⟩

/-- An active admission first compacts its predecessor and makes room among the pins. -/
theorem mem_prior_active (h : p.Represents) :
    k ∈ evictedKeys (p.priorEvictions key "active" predecessor) ↔
      k ∈ p.compacted key "active" predecessor ∨ k ∈ p.quotaPin key "active" := by
  rw [mem_evictedKeys_prior h, mem_rotated h]
  simp

theorem stable_not_prior (h : p.Represents) (hstable : p.roleOf k = some "stable") :
    k ∉ evictedKeys (p.priorEvictions key "active" predecessor) := by
  rw [mem_prior_active h]
  rintro (hk | hk)
  · exact absurd (hstable.symm.trans (compacted_active hk)) (by decide)
  · exact quotaPin_not_working h hk ((mem_workingKeys h).mpr (Or.inl hstable))

/-- Without protection the stable resident survives exactly when it fits, with the pins
behind it and the admitted entry. -/
theorem Regular.stable_taken_iff (h : p.Regular) {stable : CacheKey N}
    (hstable : p.roleOf stable = some "stable") (hne : stable ≠ key) {taken : List (CacheKey N)}
    (htaken : ShortestPrefix
      (fun u => p.RoomFor key nbytes
        (evictedKeys (p.priorEvictions key "active" predecessor) ∪ u.toFinset))
      (p.orderedKeys.filter (fun k => k ≠ key ∧
        k ∉ evictedKeys (p.priorEvictions key "active" predecessor))) taken) :
    stable ∉ taken ↔ p.FitsWith (insert stable (p.pinsBeside key "active")) nbytes := by
  have hchron := h.toChronological
  have hprior {k : CacheKey N} :
      k ∈ evictedKeys (p.priorEvictions key "active" predecessor) ↔
        k ∈ p.compacted key "active" predecessor ∨ k ∈ p.quotaPin key "active" :=
    mem_prior_active hchron.toRepresents
  have hspared : stable ∉ evictedKeys (p.priorEvictions key "active" predecessor) :=
    stable_not_prior hchron.toRepresents hstable
  generalize hevicted : evictedKeys (p.priorEvictions key "active" predecessor) = evicted at *
  have hqueue {k : CacheKey N} : k ∈ p.orderedKeys.filter (fun k => k ≠ key ∧ k ∉ evicted) ↔
      k ∈ p.entries.keys ∧ k ≠ key ∧ k ∉ evicted := by
    rw [List.mem_filter, hchron.mem_orderedKeys, decide_eq_true_eq]
  have hsorted : (p.orderedKeys.filter (fun k => k ≠ key ∧ k ∉ evicted)).Pairwise p.Precedes :=
    hchron.victimOrder.sorted.filter _
  have hmem := hqueue.mpr ⟨mem_keys_of_roleOf hstable, hne, hspared⟩
  generalize p.orderedKeys.filter (fun k => k ≠ key ∧ k ∉ evicted) = queue at *
  constructor
  · intro hleft
    refine htaken.enough.mono h.limits fun k hk => ?_
    rw [Finset.mem_erase, Finset.mem_sdiff, Finset.mem_union, List.mem_toFinset, mem_residents,
      not_or]
    rcases Finset.mem_insert.mp hk with rfl | hk
    · exact ⟨hne, mem_keys_of_roleOf hstable, hspared, hleft⟩
    · obtain ⟨hkey, ⟨r, hr, hpin⟩, hquota⟩ := mem_pinsBeside.mp hk
      refine ⟨hkey, mem_keys_of_roleOf hr, fun hgone => ?_, fun htake => ?_⟩
      · rcases hprior.mp hgone with hgone | hgone
        · obtain rfl := Option.some.inj (hr.symm.trans (compacted_active hgone))
          exact absurd (pinRankMin_le_rank.mp hpin).2 (by decide)
        · exact hquota hgone
      · have hrank := (ShortestPrefix.rel hsorted htaken.isPrefix htake hmem hleft).rank_le hr hstable
        rw [rank_stable] at hrank
        exact absurd (hpin.trans hrank) (by decide)
  · intro hfits htake
    obtain ⟨front, behind, hsplit⟩ := List.append_of_mem hmem
    rw [hsplit] at hsorted hqueue
    have hfront : taken <+: front := by
      refine htaken.prefix_of ⟨_, hsplit.symm⟩ (hfits.mono h.limits fun k hk => ?_)
      rw [Finset.mem_erase, Finset.mem_sdiff, Finset.mem_union, List.mem_toFinset, mem_residents,
        not_or] at hk
      obtain ⟨hkey, hres, hstays, hnot⟩ := hk
      have hrest := (List.mem_append.mp (hqueue.mpr ⟨hres, hkey, hstays⟩)).resolve_left hnot
      rcases List.mem_cons.mp hrest with rfl | hlater
      · exact Finset.mem_insert_self _ _
      · have hbehind : p.Precedes stable k :=
          (List.pairwise_cons.mp (List.pairwise_append.mp hsorted).2.1).1 k hlater
        refine Finset.mem_insert_of_mem (mem_pinsBeside.mpr
          ⟨hkey, h.pin_of_behind_stable hstable hbehind, fun hquota => ?_⟩)
        exact hstays (hprior.mpr (Or.inr hquota))
    have hself : p.Precedes stable stable := (List.pairwise_append.mp hsorted).2.2 stable
      (hfront.subset htake) stable List.mem_cons_self
    exact hself.asymm hself

/-- An active admission finds these lanes once it has compacted its predecessor. -/
theorem lanesBeside_eq (h : p.Represents) : p.lanesBeside key predecessor =
    (p.workingKeys \ evictedKeys (p.priorEvictions key "active" predecessor)).erase key := by
  ext k
  rw [lanesBeside, Finset.mem_erase, Finset.mem_sdiff, List.mem_toFinset, Finset.mem_erase,
    mem_working_kept h, mem_rotated h]
  simp

/-- The stable resident survives an active admission exactly when the lanes fit beside the
admitted entry, or it fits with the pins alone. -/
theorem Regular.stable_survives_iff (h : p.Regular) {stable : CacheKey N}
    (hstable : p.roleOf stable = some "stable") (hne : stable ≠ key)
    (hroom : p.Admissible nbytes) :
    stable ∉ evictedKeys (p.planAdmission key "active" nbytes predecessor).evictions ↔
      p.FitsWith (p.lanesBeside key predecessor) (max 0 nbytes) ∨
        p.FitsWith (insert stable (p.pinsBeside key "active")) (max 0 nbytes) := by
  have hchron := h.toChronological
  obtain ⟨taken, htaken⟩ := hchron.exists_takes hroom key "active" predecessor
  have hspared : stable ∉ evictedKeys (p.priorEvictions key "active" predecessor) :=
    stable_not_prior hchron.toRepresents hstable
  have hgone : stable ∉ evictedKeys (p.planAdmission key "active" nbytes predecessor).evictions ↔
      stable ∉ taken := by
    rw [hchron.mem_evictedKeys_plan hroom htaken]
    simp [hspared]
  rw [hgone, lanesBeside_eq hchron.toRepresents]
  by_cases hfits : p.FitsWith ((p.workingKeys \
      evictedKeys (p.priorEvictions key "active" predecessor)).erase key) (max 0 nbytes)
  · have hguarded := protection_of_working (Or.inr rfl : ("active" : Role) = "stable" ∨ _) hfits
    refine iff_of_true (fun htake => ?_) (Or.inl hfits)
    refine hchron.spares_protected h.limits htaken ?_ htake ?_
    · rwa [hguarded]
    · rw [hguarded]
      exact Finset.mem_sdiff.mpr
        ⟨(mem_workingKeys hchron.toRepresents).mpr (Or.inl hstable), hspared⟩
  · have hunguarded : p.protection key "active" (max 0 nbytes)
        (evictedKeys (p.priorEvictions key "active" predecessor)) = ∅ := by
      refine if_neg fun hworks => hfits ?_
      rwa [WorkingFits, if_pos (Or.inr (Or.inl rfl))] at hworks
    rw [takes_iff hchron.toRepresents, admissionQueue, hunguarded, deferring_empty] at htaken
    rw [h.stable_taken_iff hstable hne htaken]
    exact (or_iff_right hfits).symm

end WorkingSetPolicy

end StateBraid.Policy
