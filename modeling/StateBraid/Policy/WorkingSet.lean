import StateBraid.Policy.Effects

/-!
# The protection of the working set

The stable and active residents wait behind all others as long as they fit, together with
the entry that is admitted if it is to be one of them. Nothing in front of them being
enough, the loops take them all the same: what is protected is an order, not a promise.
-/

namespace StateBraid.Policy
open Library
open scoped BigOperators

variable {N : Type} [DecidableEq N]

namespace WorkingSetPolicy

/-! ## What is protected -/

/-- The working residents that stay fit, with the admitted entry in its new size if it
joins them or is one of them. -/
def WorkingFits (p : WorkingSetPolicy N) (key : CacheKey N) (role : Role) (nbytes : ℤ)
    (kept : Finset (CacheKey N)) : Prop :=
  if role = "stable" ∨ role = "active" ∨ key ∈ kept then p.FitsWith (kept.erase key) nbytes
  else p.Fits kept

instance (p : WorkingSetPolicy N) (S : Finset (CacheKey N)) (nbytes : ℤ) :
    Decidable (p.FitsWith S nbytes) := inferInstanceAs (Decidable (_ ∧ _))

instance (p : WorkingSetPolicy N) (S : Finset (CacheKey N)) : Decidable (p.Fits S) :=
  inferInstanceAs (Decidable (p.Within _ _ _))

instance (p : WorkingSetPolicy N) (key : CacheKey N) (role : Role) (nbytes : ℤ)
    (kept : Finset (CacheKey N)) : Decidable (p.WorkingFits key role nbytes kept) :=
  inferInstanceAs (Decidable (if role = "stable" ∨ role = "active" ∨ key ∈ kept then
    p.FitsWith (kept.erase key) nbytes else p.Fits kept))

/-- What an admission protects once these keys are evicted. -/
def protection (p : WorkingSetPolicy N) (key : CacheKey N) (role : Role) (nbytes : ℤ)
    (evicted : Finset (CacheKey N)) : Finset (CacheKey N) :=
  if p.WorkingFits key role nbytes (p.workingKeys \ evicted) then p.workingKeys \ evicted else ∅

variable {p : WorkingSetPolicy N} {key k : CacheKey N} {role : Role} {nbytes : ℤ}
variable {predecessor : Option (CacheKey N)} {C evicted : Finset (CacheKey N)}

theorem protectedWeight_self (p : WorkingSetPolicy N) (key : CacheKey N) (nbytes : ℤ)
    (evicted : Finset (CacheKey N)) : p.protectedWeight key nbytes evicted key = (1, nbytes) :=
  if_pos rfl

/-- A resident that stays counts once, with the size it is held with. -/
theorem protectedWeight_kept (hne : k ≠ key) (hmem : k ∈ p.residents \ evicted) :
    p.protectedWeight key nbytes evicted k = (1, p.heldBytes k) := by
  obtain ⟨hres, hstays⟩ := Finset.mem_sdiff.mp hmem
  obtain ⟨e, he⟩ := Dict.mem_keys_iff.mp (mem_residents.mp hres)
  unfold protectedWeight
  rw [if_neg hne, if_neg hstays, he, heldBytes_of_get? he]

/-- The totals of residents that stay. -/
theorem sum_protectedWeight (nbytes : ℤ) (hkey : key ∉ C) (hC : C ⊆ p.residents \ evicted) :
    (∑ k ∈ C, (p.protectedWeight key nbytes evicted k).1) = C.card ∧
      (∑ k ∈ C, (p.protectedWeight key nbytes evicted k).2) = p.bytesOf C := by
  have hweight (k : CacheKey N) (hk : k ∈ C) :
      p.protectedWeight key nbytes evicted k = (1, p.heldBytes k) :=
    protectedWeight_kept (fun he : k = key => hkey (he ▸ hk)) (hC hk)
  constructor
  · rw [Finset.card_eq_sum_ones]
    exact Finset.sum_congr rfl fun k hk => by rw [hweight k hk]
  · exact Finset.sum_congr rfl fun k hk => by rw [hweight k hk]

/-- `_working_set_fits` counts the admitted key, if it is among the candidates, with its
new size. -/
theorem workingSetFits_iff (nbytes : ℤ) (hC : C.erase key ⊆ p.residents \ evicted) :
    p.workingSetFits C key nbytes evicted = true ↔
      if key ∈ C then p.FitsWith (C.erase key) nbytes else p.Fits C := by
  unfold workingSetFits
  rw [decide_eq_true_eq]
  split_ifs with hmem
  · obtain ⟨hcount, hbytes⟩ := sum_protectedWeight nbytes (Finset.notMem_erase key C) hC
    rw [← Finset.add_sum_erase _ _ hmem, ← Finset.add_sum_erase C _ hmem, hcount, hbytes,
      protectedWeight_self, FitsWith]
    dsimp only
    rw [add_comm 1, add_comm nbytes]
  · rw [Finset.erase_eq_of_notMem hmem] at hC
    obtain ⟨hcount, hbytes⟩ := sum_protectedWeight nbytes hmem hC
    rw [hcount, hbytes, Fits, Within]

theorem workingKeys_subset (h : p.Represents) : p.workingKeys ⊆ p.residents := by
  intro k hk
  exact mem_residents.mpr
    (((mem_workingKeys h).mp hk).elim mem_keys_of_roleOf mem_keys_of_roleOf)

/-- The candidates that the planner asks about fit when the working residents do. -/
theorem candidates_fit_iff {kept : Finset (CacheKey N)} (role : Role) (nbytes : ℤ)
    (hkept : kept.erase key ⊆ p.residents \ evicted) :
    p.workingSetFits (if role = "stable" ∨ role = "active" then insert key kept else kept) key
        nbytes evicted = true ↔ p.WorkingFits key role nbytes kept := by
  unfold WorkingFits
  by_cases hrole : role = "stable" ∨ role = "active"
  · have hall : role = "stable" ∨ role = "active" ∨ key ∈ kept := or_assoc.mp (Or.inl hrole)
    have herase : (insert key kept).erase key = kept.erase key := Finset.erase_insert_eq_erase _ _
    rw [if_pos hrole, if_pos hall, workingSetFits_iff nbytes (herase ▸ hkept),
      if_pos (Finset.mem_insert_self _ _), herase]
  · have hother : (role = "stable" ∨ role = "active" ∨ key ∈ kept) ↔ key ∈ kept := by
      rw [← or_assoc]
      exact or_iff_right hrole
    rw [if_neg hrole, workingSetFits_iff nbytes hkept]
    simp only [hother]

/-- But for the admitted key, the planner protects exactly these. -/
theorem mem_protectedKeys (h : p.Represents) {evictions : List (Eviction N)} (hne : k ≠ key) :
    k ∈ p.protectedKeys key role nbytes evictions ↔
      k ∈ p.protection key role nbytes (evictedKeys evictions) := by
  have hstay : (p.workingKeys \ evictedKeys evictions).erase key ⊆
      p.residents \ evictedKeys evictions := (Finset.erase_subset _ _).trans
    (Finset.sdiff_subset_sdiff (workingKeys_subset h) subset_rfl)
  have hfits := candidates_fit_iff role nbytes hstay
  unfold protectedKeys protection
  dsimp only
  by_cases hfit : p.WorkingFits key role nbytes (p.workingKeys \ evictedKeys evictions)
  · rw [if_pos (hfits.mpr hfit), if_pos hfit]
    split_ifs
    · rw [Finset.mem_insert]
      exact or_iff_right hne
    · rfl
  · rw [if_neg (fun hall => hfit (hfits.mp hall)), if_neg hfit]

/-! ## Victims of an admission -/

/-- The residents that an admission may evict for room, in their order. -/
def admissionQueue (p : WorkingSetPolicy N) (order : List (CacheKey N)) (key : CacheKey N)
    (role : Role) (nbytes : ℤ) (evicted : Finset (CacheKey N)) : List (CacheKey N) :=
  deferring (p.protection key role nbytes evicted)
    (order.filter (fun k => k ≠ key ∧ k ∉ evicted))

/-- What stays of the residents fits with the admitted entry. -/
def RoomFor (p : WorkingSetPolicy N) (key : CacheKey N) (nbytes : ℤ)
    (evicted : Finset (CacheKey N)) : Prop := p.FitsWith ((p.residents \ evicted).erase key) nbytes

/-- The victims of the capacity loop, in these terms. -/
theorem takes_iff (h : p.Represents) {taken : List (CacheKey N)} :
    p.Takes key role nbytes predecessor taken ↔
      ShortestPrefix (fun u => p.RoomFor key (max 0 nbytes)
          (evictedKeys (p.priorEvictions key role predecessor) ∪ u.toFinset))
        (p.admissionQueue p.orderedKeys key role (max 0 nbytes)
          (evictedKeys (p.priorEvictions key role predecessor))) taken := by
  unfold Takes victimQueue admissionQueue
  generalize p.priorEvictions key role predecessor = prior
  have hlist : p.orderedKeys.filter (fun k => k ∉ insert key (evictedKeys prior)) =
      p.orderedKeys.filter (fun k => k ≠ key ∧ k ∉ evictedKeys prior) := by
    refine List.filter_congr fun k _ => decide_eq_decide.mpr ?_
    rw [Finset.mem_insert, not_or]
  have hqueue := deferring_congr (S := p.protectedKeys key role (max 0 nbytes) prior)
    (T := p.protection key role (max 0 nbytes) (evictedKeys prior))
    (l := p.orderedKeys.filter (fun k => k ≠ key ∧ k ∉ evictedKeys prior)) fun k hk =>
      mem_protectedKeys h (of_decide_eq_true (List.mem_filter.mp hk).2).1
  rw [hlist, hqueue]
  simp only [projectedOverLimit_eq_false, RoomFor]

/-- Where what is protected fits with the admitted entry, none of it is taken. -/
theorem Chronological.spares_protected (h : p.Chronological) (hlimits : p.WithinLimits)
    {taken : List (CacheKey N)} (htaken : p.Takes key role nbytes predecessor taken)
    (hfits : p.FitsWith ((p.protection key role (max 0 nbytes)
      (evictedKeys (p.priorEvictions key role predecessor))).erase key) (max 0 nbytes))
    (hk : k ∈ taken) : k ∉ p.protection key role (max 0 nbytes)
      (evictedKeys (p.priorEvictions key role predecessor)) := by
  rw [takes_iff h.toRepresents, admissionQueue] at htaken
  generalize evictedKeys (p.priorEvictions key role predecessor) = evicted at *
  generalize p.protection key role (max 0 nbytes) evicted = guarded at *
  have hfront : taken <+:
      (p.orderedKeys.filter (fun k => k ≠ key ∧ k ∉ evicted)).filter (fun k => k ∉ guarded) := by
    refine htaken.prefix_of (List.prefix_append _ _) (hfits.mono hlimits ?_)
    intro k hk
    simp only [Finset.mem_erase, Finset.mem_sdiff, Finset.mem_union, List.mem_toFinset,
      List.mem_filter, mem_residents, h.mem_orderedKeys, decide_eq_true_eq, not_or, not_and,
      not_not] at hk ⊢
    exact ⟨hk.1, hk.2.2.2 ⟨hk.2.1, hk.1, hk.2.2.1⟩⟩
  exact of_decide_eq_true (List.mem_filter.mp (hfront.subset hk)).2

/-- The keys evicted for one reason, in their order. -/
def evictedFor (reason : EvictionReason) (evictions : List (Eviction N)) : List (CacheKey N) :=
  (evictions.filter (fun e => e.reason = reason)).map Eviction.key

/-- The keys evicted for any other reason. -/
def evictedOtherwise (reason : EvictionReason) (evictions : List (Eviction N)) :
    Finset (CacheKey N) := evictedKeys (evictions.filter (fun e => e.reason ≠ reason))

theorem prior_reason (h : p.Represents) {e : Eviction N}
    (he : e ∈ p.priorEvictions key role predecessor) : e.reason ≠ .capacity := by
  obtain ⟨k, reason⟩ := e
  rw [priorEvictions_eq h, List.mem_append, List.mem_append, mem_map_reason, mem_map_reason,
    mem_map_reason] at he
  rintro (rfl : reason = .capacity)
  simp at he

/-- Both parts of an accepted plan, read off its evictions. -/
theorem Chronological.evicted_parts (h : p.Chronological) (hroom : p.Admissible nbytes)
    {taken : List (CacheKey N)} (htaken : p.Takes key role nbytes predecessor taken) :
    evictedFor .capacity (p.planAdmission key role nbytes predecessor).evictions = taken ∧
      evictedOtherwise .capacity (p.planAdmission key role nbytes predecessor).evictions =
        evictedKeys (p.priorEvictions key role predecessor) := by
  have hprior (e : Eviction N) (he : e ∈ p.priorEvictions key role predecessor) :
      e.reason ≠ .capacity := prior_reason h.toRepresents he
  rw [h.planAdmission_eq hroom htaken]
  constructor
  · rw [evictedFor, List.filter_append, List.filter_eq_nil_iff.mpr (by simpa using hprior),
      List.nil_append, List.filter_eq_self.mpr (by simp), evictions_map_key]
  · rw [evictedOtherwise, List.filter_append, List.filter_eq_self.mpr (by simpa using hprior),
      List.filter_eq_nil_iff.mpr (by simp), List.append_nil]

/-- The victims of the capacity loop are the shortest prefix of the queue that makes room. -/
theorem Chronological.capacity_shortest (h : p.Chronological) (hroom : p.Admissible nbytes)
    (key : CacheKey N) (role : Role) (predecessor : Option (CacheKey N)) :
    ShortestPrefix
      (fun u => p.RoomFor key (max 0 nbytes) (evictedOtherwise .capacity
        (p.planAdmission key role nbytes predecessor).evictions ∪ u.toFinset))
      (p.admissionQueue p.orderedKeys key role (max 0 nbytes) (evictedOtherwise .capacity
        (p.planAdmission key role nbytes predecessor).evictions))
      (evictedFor .capacity (p.planAdmission key role nbytes predecessor).evictions) := by
  obtain ⟨taken, htaken⟩ := h.exists_takes hroom key role predecessor
  obtain ⟨hfor, hotherwise⟩ := h.evicted_parts hroom htaken
  rw [hfor, hotherwise]
  exact (takes_iff h.toRepresents).mp htaken

/-! ## Victims of a trim -/

/-- A committed trim is over its targets when the plan left it over them. -/
theorem commitTrim_within {plan : TrimPlan N} {sequences bytes : ℕ} :
    (p.commitTrim plan).Within (p.commitTrim plan).residents sequences bytes ↔
      p.Within (p.residents \ evictedKeys plan.evictions) sequences bytes := by
  rw [← overTargets_eq_false, ← Finset.sdiff_empty (s := (p.commitTrim plan).residents),
    ← overTargets_eq_false]
  unfold overTargets untrimmedEntries
  rw [commitTrim_entries]
  simp only [Dict.filterKeys, List.filter_filter, Finset.notMem_empty, not_false_eq_true,
    decide_true, Bool.true_and]

/-- What a trim plan is, for its targets. -/
structure TrimsShortest (p : WorkingSetPolicy N) (order : List (CacheKey N)) (targets : ℕ × ℕ)
    (plan : TrimPlan N) : Prop where
  reason : ∀ e ∈ plan.evictions, e.reason = .trim
  victims : ShortestPrefix (fun u => p.Within (p.residents \ u.toFinset) targets.1 targets.2)
    (deferring (p.trimProtection targets) order) (plan.evictions.map Eviction.key)
  reaches : (p.commitTrim plan).nSequences ≤ targets.1 ∧
    (p.commitTrim plan).residentBytes ≤ targets.2
  idle : p.nSequences ≤ targets.1 → p.residentBytes ≤ targets.2 → plan.evictions = []

theorem trimTakes_iff {targets : ℕ × ℕ} {taken : List (CacheKey N)} :
    p.TrimTakes targets taken ↔
      ShortestPrefix (fun u => p.Within (p.residents \ u.toFinset) targets.1 targets.2)
        (deferring (p.trimProtection targets) p.orderedKeys) taken := by
  have hall : p.orderedKeys.filter (fun k => k ∉ (∅ : Finset (CacheKey N))) = p.orderedKeys :=
    List.filter_eq_self.mpr (by simp)
  unfold TrimTakes victimQueue
  rw [hall]
  simp only [overTargets_eq_false]

theorem Chronological.planTrim_shortest (h : p.Chronological) (nSequences nBytes : Option ℤ) :
    ∃ plan, p.planTrim nSequences nBytes = .ok plan ∧
      p.TrimsShortest p.orderedKeys (p.trimTargets nSequences nBytes) plan ∧
      (p.commitTrim plan).planTrim nSequences nBytes = .ok ⟨[]⟩ := by
  obtain ⟨taken, htaken⟩ := h.exists_trimTakes (p.trimTargets nSequences nBytes)
  have hshort := trimTakes_iff.mp htaken
  refine ⟨⟨taken.map (fun k => ⟨k, .trim⟩)⟩, h.planTrim_eq htaken, ?_, ?_⟩
  all_goals
    generalize hplan : (⟨taken.map (fun k => ⟨k, .trim⟩)⟩ : TrimPlan N) = plan
    have hkeys : plan.evictions.map Eviction.key = taken := by
      rw [← hplan, evictions_map_key]
    have hwithin : (p.commitTrim plan).Within (p.commitTrim plan).residents
        (p.trimTargets nSequences nBytes).1 (p.trimTargets nSequences nBytes).2 := by
      rw [commitTrim_within, evictedKeys, hkeys]
      exact hshort.enough
  · constructor
    case reason =>
      intro e he
      rw [← hplan] at he
      obtain ⟨k, -, rfl⟩ := List.mem_map.mp he
      rfl
    case victims => rwa [hkeys]
    case reaches =>
      rw [Within, card_residents, bytesOf_residents] at hwithin
      exact hwithin
    case idle =>
      intro hsequences hbytes
      rw [← card_residents] at hsequences
      rw [← bytesOf_residents] at hbytes
      have hnone := hshort.eq_nil ⟨by simpa using hsequences, by simpa using hbytes⟩
      rw [← hplan, hnone, List.map_nil]
  · have htargets : (p.commitTrim plan).trimTargets nSequences nBytes =
        p.trimTargets nSequences nBytes := by
      rw [trimTargets, commitTrim_config, trimTargets]
    have hnone : (p.commitTrim plan).TrimTakes
        ((p.commitTrim plan).trimTargets nSequences nBytes) [] := by
      refine trimTakes_iff.mpr (.nil ?_)
      rw [htargets, List.toFinset_nil, Finset.sdiff_empty]
      exact hwithin
    exact (h.commitTrim plan).planTrim_eq hnone

end WorkingSetPolicy

end StateBraid.Policy
