import StateBraid.Policy.Outcomes

/-!
# What an accepted plan evicts, and what its commit changes

Four rules write evictions down. Read off the finished list: no key twice, only residents,
never the admitted key, and a lineage or a rotation exactly where there is one. The commit
of the plan removes these keys, puts the admitted entry last and leaves all other entries
and their order alone.
-/

namespace StateBraid.Policy
open Library

variable {N : Type} [DecidableEq N]

namespace WorkingSetPolicy

/-- What the evictions of an accepted plan are. -/
structure EvictsProperly (p : WorkingSetPolicy N) (key : CacheKey N) (role : Role)
    (predecessor : Option (CacheKey N)) (evictions : List (Eviction N)) : Prop where
  distinct : (evictions.map Eviction.key).Nodup
  resident : ∀ e ∈ evictions, e.key ∈ p.entries.keys
  spares : ∀ e ∈ evictions, e.key ≠ key
  lineage : ∀ k, ⟨k, .activeSuccessor⟩ ∈ evictions ↔
    role = "active" ∧ predecessor = some k ∧ p.roleOf k = some "active" ∧
      k.cacheNamespace = key.cacheNamespace ∧ k.tokens <+: key.tokens ∧ k.tokens ≠ key.tokens
  rotation : ∀ k, ⟨k, .stableRotate⟩ ∈ evictions ↔
    role = "stable" ∧ p.roleOf k = some "stable" ∧ k ≠ key
  lane : ∀ j k, p.roleOf j = some "stable" → p.roleOf k = some "stable" → j = k

/-- What the commit of a plan makes of a policy: table, buckets and the count of compacted
predecessors. -/
structure CommitsExactly (p q : WorkingSetPolicy N) (key : CacheKey N) (role : Role) (nbytes : ℤ)
    (evictions : List (Eviction N)) : Prop where
  table : q.entries.items =
    p.entries.items.filter (fun kv => kv.1 ∉ evictedKeys evictions ∧ kv.1 ≠ key) ++
      [(key, ⟨key, role, nbytes, decide (role ∈ p.config.pinRoles), 0⟩)]
  lanes : ∀ r, q.keysForRole r =
    (p.keysForRole r).filter (fun k => k ∉ evictedKeys evictions ∧ k ≠ key) ++
      if r = role then [key] else []
  buckets : p.buckets.keys <+: q.buckets.keys
  successors : q.activeSuccessorEvictions = p.activeSuccessorEvictions +
    evictions.countP (fun e => e.reason = .activeSuccessor)

variable {p : WorkingSetPolicy N} {key k : CacheKey N} {role : Role} {nbytes : ℤ}
variable {predecessor : Option (CacheKey N)}

/-! ## The evictions -/

theorem mem_map_reason {N : Type} {k : CacheKey N} {keys : List (CacheKey N)}
    {reason reason' : EvictionReason} :
    (⟨k, reason⟩ : Eviction N) ∈ keys.map (fun k => ⟨k, reason'⟩) ↔ reason = reason' ∧ k ∈ keys := by
  simp only [List.mem_map, Eviction.mk.injEq]
  constructor
  · rintro ⟨j, hj, rfl, rfl⟩
    exact ⟨rfl, hj⟩
  · rintro ⟨rfl, hk⟩
    exact ⟨k, hk, rfl, rfl⟩

/-- Which keys an accepted plan evicts for which reason. -/
theorem Chronological.mem_plan (h : p.Chronological) (hroom : p.Admissible nbytes)
    {taken : List (CacheKey N)} (htaken : p.Takes key role nbytes predecessor taken)
    {reason : EvictionReason} :
    ⟨k, reason⟩ ∈ (p.planAdmission key role nbytes predecessor).evictions ↔
      reason = .stableRotate ∧ k ∈ p.rotated key role ∨
      reason = .activeSuccessor ∧ k ∈ p.compacted key role predecessor ∨
      reason = .pinQuota ∧ k ∈ p.quotaPin key role ∨
      reason = .capacity ∧ k ∈ taken := by
  rw [h.planAdmission_eq hroom htaken, priorEvictions_eq h.toRepresents]
  simp only [List.mem_append, mem_map_reason, or_assoc]

/-- A key that one of the rules evicts is resident. -/
theorem Chronological.prior_resident (h : p.Chronological)
    (hk : k ∈ evictedKeys (p.priorEvictions key role predecessor)) : k ∈ p.entries.keys := by
  rcases (mem_evictedKeys_prior h.toRepresents).mp hk with hk | hk | hk
  · exact mem_keys_of_roleOf ((mem_rotated h.toRepresents).mp hk).2.1
  · exact mem_keys_of_roleOf (compacted_active hk)
  · obtain ⟨r, hr, -⟩ := roleOf_of_oldestPin h.toRepresents (mem_quotaPin.mp hk).2.1
    exact mem_keys_of_roleOf hr

theorem Regular.lane_unique (h : p.Regular) {j k : CacheKey N} (hj : p.roleOf j = some "stable")
    (hk : p.roleOf k = some "stable") : j = k := by
  obtain ⟨d, hd, hdrole⟩ := roleOf_eq_some.mp hj
  obtain ⟨e, he, herole⟩ := roleOf_eq_some.mp hk
  exact h.lane.unique hd hdrole he herole

theorem Regular.evictsProperly (h : p.Regular)
    (hacc : (p.planAdmission key role nbytes predecessor).accepted = true) :
    p.EvictsProperly key role predecessor
      (p.planAdmission key role nbytes predecessor).evictions := by
  have hchron := h.toChronological
  have hroom := planAdmission_accepted hacc
  obtain ⟨taken, htaken⟩ := hchron.exists_takes hroom key role predecessor
  have hevicted {e : Eviction N}
      (he : e ∈ (p.planAdmission key role nbytes predecessor).evictions) :
      e.key ∈ evictedKeys (p.priorEvictions key role predecessor) ∨ e.key ∈ taken :=
    (hchron.mem_evictedKeys_plan hroom htaken).mp (mem_evictedKeys.mpr ⟨e, he, rfl⟩)
  constructor
  case distinct =>
    rw [hchron.planAdmission_eq hroom htaken, List.map_append, evictions_map_key]
    have htakenNodup : taken.Nodup :=
      (hchron.victimQueue_nodup _ _).sublist htaken.isPrefix.sublist
    refine List.nodup_append'.mpr
      ⟨priorKeys_nodup hchron.toRepresents key role predecessor, htakenNodup, ?_⟩
    intro k hprior hk
    exact (hchron.mem_of_taken htaken hk).2.2 (List.mem_toFinset.mpr hprior)
  case resident =>
    intro e he
    rcases hevicted he with hprior | hk
    · exact hchron.prior_resident hprior
    · exact (hchron.mem_of_taken htaken hk).1
  case spares =>
    intro e he
    rcases hevicted he with hprior | hk
    · exact prior_ne_key hchron.toRepresents hprior
    · exact (hchron.mem_of_taken htaken hk).2.1
  case lineage =>
    intro k
    rw [hchron.mem_plan hroom htaken, mem_compacted, isLineage_iff]
    simp only [reduceCtorEq, false_and, true_and, false_or, or_false]
    exact and_left_comm
  case rotation =>
    intro k
    rw [hchron.mem_plan hroom htaken, mem_rotated hchron.toRepresents]
    simp only [reduceCtorEq, false_and, true_and, or_false]
  case lane => exact fun j k hj hk => h.lane_unique hj hk

/-! ## The commit -/

theorem removeEntry_buckets_keys (p : WorkingSetPolicy N) (k : CacheKey N) :
    (p.removeEntry k).2.buckets.keys = p.buckets.keys := by
  unfold removeEntry
  split
  · rfl
  · dsimp only
    split
    · exact Dict.keys_insert_of_mem _ (Dict.mem_keys_of_get? (by assumption))
    · rfl

theorem removeEntry_activeSuccessorEvictions (p : WorkingSetPolicy N) (k : CacheKey N) :
    (p.removeEntry k).2.activeSuccessorEvictions = p.activeSuccessorEvictions := by
  unfold removeEntry
  split <;> rfl

/-- A resident that is removed counts once, under its reason. -/
theorem commitEviction_activeSuccessorEvictions {e : Eviction N} (hk : e.key ∈ p.entries.keys) :
    (p.commitEviction e).activeSuccessorEvictions = p.activeSuccessorEvictions +
      if e.reason = .activeSuccessor then 1 else 0 := by
  obtain ⟨entry, hentry⟩ := Dict.mem_keys_iff.mp hk
  have hsome := (removeEntry_fst p e.key).trans hentry
  have hkept := removeEntry_activeSuccessorEvictions p e.key
  unfold commitEviction
  rcases hremove : p.removeEntry e.key with ⟨found, q⟩
  rw [hremove] at hsome hkept
  dsimp only at hsome hkept
  subst hsome
  cases hreason : e.reason with
  | activeSuccessor => simp [hkept]
  | capacity =>
    dsimp only
    split <;> simp [hkept]
  | stableRotate | pinQuota | trim | remoteEvicted => simp [hkept]

/-- Distinct residents are all counted. -/
theorem foldl_activeSuccessorEvictions {evictions : List (Eviction N)}
    (hdistinct : (evictions.map Eviction.key).Nodup)
    (hresident : ∀ e ∈ evictions, e.key ∈ p.entries.keys) :
    (evictions.foldl commitEviction p).activeSuccessorEvictions = p.activeSuccessorEvictions +
      evictions.countP (fun e => e.reason = .activeSuccessor) := by
  induction evictions generalizing p with
  | nil => rfl
  | cons e evictions ih =>
    obtain ⟨he, hrest⟩ := List.nodup_cons.mp hdistinct
    have hleft : ∀ e' ∈ evictions, e'.key ∈ (p.commitEviction e).entries.keys := by
      intro e' he'
      rw [commitEviction_entries, Dict.mem_keys_erase]
      refine ⟨hresident e' (List.mem_cons_of_mem e he'), fun heq => he ?_⟩
      exact heq ▸ List.mem_map_of_mem he'
    rw [List.foldl_cons, ih hrest hleft,
      commitEviction_activeSuccessorEvictions (hresident e List.mem_cons_self), List.countP_cons]
    simp only [decide_eq_true_eq]
    omega

theorem foldl_commitEviction_buckets_keys (evictions : List (Eviction N))
    (p : WorkingSetPolicy N) :
    (evictions.foldl commitEviction p).buckets.keys = p.buckets.keys := by
  induction evictions generalizing p with
  | nil => rfl
  | cons e evictions ih =>
    rw [List.foldl_cons, ih, (commitEviction_sameResidents p e).buckets, removeEntry_buckets_keys]

/-- Buckets are never dropped, a new one comes last. -/
theorem commit_buckets_prefix {plan : AdmissionPlan N} (hacc : plan.accepted = true) :
    p.buckets.keys <+: (p.commit plan).buckets.keys := by
  have hcleared :
      ((plan.evictions.foldl commitEviction p).removeEntry plan.key).2.buckets.keys =
        p.buckets.keys := by
    rw [removeEntry_buckets_keys, foldl_commitEviction_buckets_keys]
  have hsame := commitStable_sameResidents
    ((((plan.evictions.foldl commitEviction p).removeEntry plan.key).2).insertEntry plan) plan
  rw [commit, if_pos hacc]
  dsimp only
  rw [hsame.buckets, ← hcleared, insertEntry]
  dsimp only
  by_cases hmem : plan.role ∈
      ((plan.evictions.foldl commitEviction p).removeEntry plan.key).2.buckets.keys
  · rw [Dict.keys_insert_of_mem _ hmem]
  · rw [Dict.keys_insert_of_not_mem _ hmem]
    exact List.prefix_append _ _

theorem commitStable_activeSuccessorEvictions {N : Type} (p : WorkingSetPolicy N)
    (plan : AdmissionPlan N) :
    (p.commitStable plan).activeSuccessorEvictions = p.activeSuccessorEvictions := by
  unfold commitStable
  split_ifs <;> rfl

/-- The role of a key after a commit. -/
theorem commit_roleOf {plan : AdmissionPlan N} (hacc : plan.accepted = true) :
    (p.commit plan).roleOf k =
      if k = plan.key then some plan.role
      else if k ∈ evictedKeys plan.evictions then none else p.roleOf k := by
  rw [roleOf, commit_get? p hacc, roleOf]
  split_ifs <;> rfl

/-- A bucket loses what is evicted, and the admitted key goes last in its own. -/
theorem Chronological.commit_keysForRole (h : p.Chronological) {plan : AdmissionPlan N}
    (hacc : plan.accepted = true) (r : Role) :
    (p.commit plan).keysForRole r =
      (p.keysForRole r).filter (fun k => k ∉ evictedKeys plan.evictions ∧ k ≠ plan.key) ++
        if r = plan.role then [plan.key] else [] := by
  have hkeys : (p.commit plan).entries.keys =
      p.entries.keys.filter (fun k => k ∉ evictedKeys plan.evictions ∧ k ≠ plan.key) ++
        [plan.key] := by
    rw [Dict.keys, commit_entries_items p hacc, List.map_append, Dict.keys, List.filter_map]
    rfl
  rw [(h.commit plan).chronological, h.chronological, admittedUnder, admittedUnder, hkeys,
    List.filter_append, List.filter_filter, List.filter_filter]
  congr 1
  · refine List.filter_congr fun k _ => ?_
    rw [commit_roleOf hacc]
    by_cases hself : k = plan.key
    · simp [hself]
    · by_cases hgone : k ∈ evictedKeys plan.evictions
      · rw [if_neg hself, if_pos hgone]
        simp [hself, hgone]
      · rw [if_neg hself, if_neg hgone]
        simp [hself, hgone]
  · by_cases hsame : r = plan.role
    · simp [hsame, commit_roleOf hacc]
    · simp [hsame, commit_roleOf hacc, Ne.symm hsame]

theorem Regular.commitsExactly (h : p.Regular)
    (hacc : (p.planAdmission key role nbytes predecessor).accepted = true) :
    p.CommitsExactly (p.commit (p.planAdmission key role nbytes predecessor)) key role
      (max 0 nbytes) (p.planAdmission key role nbytes predecessor).evictions := by
  obtain ⟨hkey, hrole, hbytes, -⟩ := p.planAdmission_spec key role nbytes predecessor
  have hproper := h.evictsProperly hacc
  generalize p.planAdmission key role nbytes predecessor = plan at *
  subst hkey hrole
  constructor
  case table =>
    rw [commit_entries_items p hacc, plannedEntry, hbytes]
  case lanes => exact h.toChronological.commit_keysForRole hacc
  case buckets => exact commit_buckets_prefix hacc
  case successors =>
    rw [WorkingSetPolicy.commit, if_pos hacc]
    dsimp only
    rw [commitStable_activeSuccessorEvictions, insertEntry]
    dsimp only
    rw [removeEntry_activeSuccessorEvictions,
      foldl_activeSuccessorEvictions hproper.distinct hproper.resident]

end WorkingSetPolicy

end StateBraid.Policy
