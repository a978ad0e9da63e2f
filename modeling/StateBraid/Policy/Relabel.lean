import StateBraid.Policy.Plan

/-!
# Renaming role labels

A relabelling is an injective renaming of the roles that leaves the five ranked ones
alone. Renaming the residents, the role buckets and the pin roles of a policy along it
changes nothing that a plan can see: every planner finds the same keys in the same
order, and every commit of the renamed policy is the renaming of the commit. What
carries this is `rank_relabel` and that a bucket moves with its name, in place.
-/

namespace StateBraid.Policy
open Library

/-- The roles with a rank of their own. -/
def rankedRoles : List Role := roleRanks.map Prod.fst

/-- An injective renaming of the roles that fixes the ranked ones. -/
structure Relabeling where
  toEmbedding : Role ↪ Role
  fixes : ∀ r ∈ rankedRoles, toEmbedding r = r

namespace Relabeling

instance : CoeFun Relabeling (fun _ => Role → Role) := ⟨fun g => g.toEmbedding⟩

variable (g : Relabeling)

@[simp] theorem apply_inj {r s : Role} : g r = g s ↔ r = s := g.toEmbedding.apply_eq_iff_eq r s

theorem apply_eq_iff {r s : Role} (hs : s ∈ rankedRoles) : g r = s ↔ r = s := by
  conv_lhs => rw [← g.fixes s hs]
  exact g.apply_inj

@[simp] theorem apply_eq_stable {r : Role} : g r = "stable" ↔ r = "stable" :=
  g.apply_eq_iff (by decide)

@[simp] theorem apply_eq_active {r : Role} : g r = "active" ↔ r = "active" :=
  g.apply_eq_iff (by decide)

theorem apply_stable : g "stable" = "stable" := g.fixes "stable" (by decide)

theorem apply_active : g "active" = "active" := g.fixes "active" (by decide)

/-- A renamed role has the rank table entry of the role. -/
@[simp] theorem lookup_apply (r : Role) : roleRanks.lookup (g r) = roleRanks.lookup r := by
  suffices h : ∀ ranks : List (Role × ℕ), (∀ kv ∈ ranks, kv.1 ∈ rankedRoles) →
      ranks.lookup (g r) = ranks.lookup r from
    h roleRanks fun kv hkv => List.mem_map_of_mem hkv
  intro ranks hranks
  induction ranks with
  | nil => rfl
  | cons kv ranks ih =>
    obtain ⟨s, n⟩ := kv
    have hs : g r = s ↔ r = s := g.apply_eq_iff (hranks (s, n) List.mem_cons_self)
    have hbeq : (g r == s) = (r == s) := by rw [Bool.eq_iff_iff, beq_iff_eq, beq_iff_eq, hs]
    rw [List.lookup_cons, List.lookup_cons, hbeq,
      ih fun kv hkv => hranks kv (List.mem_cons_of_mem _ hkv)]

end Relabeling

variable {N : Type}

def EntryState.relabel (g : Relabeling) (e : EntryState N) : EntryState N :=
  { e with role := g e.role }

def AdmissionPlan.relabel (g : Relabeling) (plan : AdmissionPlan N) : AdmissionPlan N :=
  { plan with role := g plan.role }

def PolicyConfig.relabel (g : Relabeling) (config : PolicyConfig) : PolicyConfig :=
  { config with pinRoles := config.pinRoles.map g.toEmbedding }

/-- Without pin roles a configuration names no role. -/
theorem PolicyConfig.relabel_of_no_pins (g : Relabeling) {config : PolicyConfig}
    (h : config.pinRoles = ∅) : config.relabel g = config := by
  cases config
  simp_all [PolicyConfig.relabel]

namespace WorkingSetPolicy

variable (g : Relabeling) (p : WorkingSetPolicy N)

/-- The policy with every role renamed. -/
def relabel : WorkingSetPolicy N :=
  { p with
    config := p.config.relabel g
    entries := p.entries.mapValues (EntryState.relabel g)
    buckets := p.buckets.mapKeys g.toEmbedding }

@[simp] theorem relabel_entries_keys : (p.relabel g).entries.keys = p.entries.keys :=
  Dict.keys_mapValues _ _

@[simp] theorem relabel_nSequences : (p.relabel g).nSequences = p.nSequences := by
  simp [nSequences, Dict.size, relabel, Dict.mapValues]

theorem mem_pinRoles_relabel (r : Role) :
    g r ∈ (p.relabel g).config.pinRoles ↔ r ∈ p.config.pinRoles := by
  simp [relabel, PolicyConfig.relabel]

/-! ## What the planners read -/

@[simp] theorem rank_relabel (r : Role) : (p.relabel g).rank (g r) = p.rank r := by
  simp [rank, mem_pinRoles_relabel]

@[simp] theorem keysForRole_relabel (r : Role) :
    (p.relabel g).keysForRole (g r) = p.keysForRole r := by
  simp [keysForRole, relabel]

@[simp] theorem keysForRole_relabel_stable :
    (p.relabel g).keysForRole "stable" = p.keysForRole "stable" := by
  rw [← g.apply_stable, keysForRole_relabel, g.apply_stable]

@[simp] theorem keysForRole_relabel_active :
    (p.relabel g).keysForRole "active" = p.keysForRole "active" := by
  rw [← g.apply_active, keysForRole_relabel, g.apply_active]

theorem bucket_relabel (r : Role) : (p.relabel g).bucket (g r) = p.bucket r := by
  simp [bucket, relabel]

/-- Renaming commutes with the sort by rank, ties included. -/
theorem sortByRank_relabel (roles : List Role) :
    (p.relabel g).sortByRank (roles.map g) = (p.sortByRank roles).map g := by
  unfold sortByRank
  refine (List.map_insertionSort _ _ _ _ fun a _ b _ => ?_).symm
  simp

theorem flatMap_keysForRole_relabel (roles : List Role) :
    ((p.relabel g).sortByRank (roles.map g)).flatMap (p.relabel g).keysForRole =
      (p.sortByRank roles).flatMap p.keysForRole := by
  rw [sortByRank_relabel, List.flatMap_map]
  simp

theorem buckets_keys_relabel : (p.relabel g).buckets.keys = p.buckets.keys.map g :=
  Dict.keys_mapKeys _ _

@[simp] theorem orderedKeys_relabel : (p.relabel g).orderedKeys = p.orderedKeys := by
  rw [orderedKeys, buckets_keys_relabel, flatMap_keysForRole_relabel]
  rfl

/-- A selection of entries by key, renamed or not, is the same selection. -/
theorem filter_items_relabel (keep : CacheKey N → Prop) [DecidablePred keep] :
    ((p.relabel g).entries.items.filter (fun kv => keep kv.1)).map Prod.snd =
      ((p.entries.items.filter (fun kv => keep kv.1)).map Prod.snd).map (EntryState.relabel g) := by
  simp only [relabel, Dict.mapValues, List.filter_map, List.map_map]
  rfl

theorem sum_nbytes_relabel (entries : List (EntryState N)) :
    ((entries.map (EntryState.relabel g)).map EntryState.nbytes).sum =
      (entries.map EntryState.nbytes).sum := by
  rw [List.map_map]
  rfl

@[simp] theorem pinCount_relabel : (p.relabel g).pinCount = p.pinCount := by
  simp only [pinCount, Dict.values, relabel, Dict.mapValues, List.map_map, List.countP_map]
  rfl

/-- A loop of removals over the renamed policy. -/
theorem foldl_relabel {remove : WorkingSetPolicy N → Eviction N → WorkingSetPolicy N}
    (hremove : ∀ q e, remove (q.relabel g) e = (remove q e).relabel g)
    (evictions : List (Eviction N)) (q : WorkingSetPolicy N) :
    evictions.foldl remove (q.relabel g) = (evictions.foldl remove q).relabel g := by
  induction evictions generalizing q with
  | nil => rfl
  | cons e evictions ih => rw [List.foldl_cons, hremove, ih, List.foldl_cons]

theorem commitStable_relabel (plan : AdmissionPlan N) :
    (p.relabel g).commitStable (plan.relabel g) = (p.commitStable plan).relabel g := by
  have hrole : (plan.relabel g).role = "stable" ↔ plan.role = "stable" := g.apply_eq_stable
  have hreason : (plan.relabel g).reason = plan.reason := rfl
  unfold commitStable
  simp only [hrole, hreason]
  split_ifs <;> rfl

variable [DecidableEq N]

theorem relabel_get? (k : CacheKey N) :
    (p.relabel g).entries.get? k = (p.entries.get? k).map (EntryState.relabel g) :=
  Dict.get?_mapValues _ _ k

@[simp] theorem nextVictim_relabel (excluding : Finset (CacheKey N)) :
    (p.relabel g).nextVictim excluding = p.nextVictim excluding := by
  rw [nextVictim, orderedKeys_relabel]
  rfl

@[simp] theorem oldestPin_relabel (excluding : Finset (CacheKey N)) :
    (p.relabel g).oldestPin excluding = p.oldestPin excluding := by
  have hpins : (p.relabel g).buckets.keys.filter (fun r => (p.relabel g).rank r ≥ pinRankMin) =
      (p.buckets.keys.filter (fun r => p.rank r ≥ pinRankMin)).map g := by
    rw [buckets_keys_relabel, List.filter_map]
    simp [Function.comp_def]
  rw [oldestPin, hpins, flatMap_keysForRole_relabel]
  rfl

@[simp] theorem workingKeys_relabel : (p.relabel g).workingKeys = p.workingKeys := by
  simp [workingKeys]

theorem keptEntries_relabel (key : CacheKey N) (evicted : Finset (CacheKey N)) :
    (p.relabel g).keptEntries key evicted =
      (p.keptEntries key evicted).map (EntryState.relabel g) :=
  p.filter_items_relabel g (fun k => k ∉ evicted ∧ k ≠ key)

theorem untrimmedEntries_relabel (evicted : Finset (CacheKey N)) :
    (p.relabel g).untrimmedEntries evicted =
      (p.untrimmedEntries evicted).map (EntryState.relabel g) :=
  p.filter_items_relabel g (fun k => k ∉ evicted)

@[simp] theorem projectedOverLimit_relabel (key : CacheKey N) (nbytes : ℤ)
    (evicted : Finset (CacheKey N)) :
    (p.relabel g).projectedOverLimit key nbytes evicted =
      p.projectedOverLimit key nbytes evicted := by
  simp only [projectedOverLimit, projectedState, keptEntries_relabel, List.length_map,
    sum_nbytes_relabel]
  rfl

@[simp] theorem overTargets_relabel (targetSequences targetBytes : ℕ)
    (evicted : Finset (CacheKey N)) :
    (p.relabel g).overTargets targetSequences targetBytes evicted =
      p.overTargets targetSequences targetBytes evicted := by
  simp only [overTargets, untrimmedEntries_relabel, List.length_map, sum_nbytes_relabel]

@[simp] theorem protectedWeight_relabel (key : CacheKey N) (nbytes : ℤ)
    (evicted : Finset (CacheKey N)) (k : CacheKey N) :
    (p.relabel g).protectedWeight key nbytes evicted k =
      p.protectedWeight key nbytes evicted k := by
  unfold protectedWeight
  rw [relabel_get?]
  cases p.entries.get? k <;> rfl

@[simp] theorem workingSetFits_relabel (protectedKeys : Finset (CacheKey N)) (key : CacheKey N)
    (nbytes : ℤ) (evicted : Finset (CacheKey N)) :
    (p.relabel g).workingSetFits protectedKeys key nbytes evicted =
      p.workingSetFits protectedKeys key nbytes evicted := by
  simp only [workingSetFits, protectedWeight_relabel]
  rfl

@[simp] theorem isLineage_relabel (key predecessor : CacheKey N) :
    (p.relabel g).isLineage key predecessor = p.isLineage key predecessor := by
  unfold isLineage
  rw [relabel_get?]
  cases p.entries.get? predecessor with
  | none => rfl
  | some entry => simp [EntryState.relabel]

/-! ## The planners -/

theorem rotateStable_relabel (key : CacheKey N) (role : Role) :
    (p.relabel g).rotateStable key (g role) = p.rotateStable key role := by
  simp [rotateStable]

theorem compactLineage_relabel (key : CacheKey N) (role : Role)
    (predecessor : Option (CacheKey N)) (evictions : List (Eviction N)) :
    (p.relabel g).compactLineage key (g role) predecessor evictions =
      p.compactLineage key role predecessor evictions := by
  cases predecessor <;> simp [compactLineage]

theorem enforcePinQuota_relabel (key : CacheKey N) (role : Role)
    (evictions : List (Eviction N)) :
    (p.relabel g).enforcePinQuota key (g role) evictions =
      p.enforcePinQuota key role evictions := by
  have hany : ((p.relabel g).entries.get? key).any EntryState.pinned =
      (p.entries.get? key).any EntryState.pinned := by
    rw [relabel_get?]
    cases p.entries.get? key <;> rfl
  have hnone : ((p.relabel g).entries.get? key).isNone = (p.entries.get? key).isNone := by
    rw [relabel_get?, Option.isNone_map]
  simp only [enforcePinQuota, mem_pinRoles_relabel, hany, hnone, pinCount_relabel,
    relabel_nSequences, oldestPin_relabel]
  rfl

theorem protectedKeys_relabel (key : CacheKey N) (role : Role) (nbytes : ℤ)
    (evictions : List (Eviction N)) :
    (p.relabel g).protectedKeys key (g role) nbytes evictions =
      p.protectedKeys key role nbytes evictions := by
  simp [protectedKeys]

theorem capacityLoop_relabel (key : CacheKey N) (nbytes : ℤ) (guarded : Finset (CacheKey N))
    (fuel : ℕ) (evictions : List (Eviction N)) :
    (p.relabel g).capacityLoop key nbytes guarded fuel evictions =
      p.capacityLoop key nbytes guarded fuel evictions := by
  induction fuel generalizing evictions with
  | zero => simp [capacityLoop]
  | succ fuel ih => simp only [capacityLoop, projectedOverLimit_relabel, nextVictim_relabel, ih]

theorem priorEvictions_relabel (key : CacheKey N) (role : Role)
    (predecessor : Option (CacheKey N)) :
    (p.relabel g).priorEvictions key (g role) predecessor =
      p.priorEvictions key role predecessor := by
  simp only [priorEvictions, rotateStable_relabel, compactLineage_relabel,
    enforcePinQuota_relabel]

/-- The plan for a renamed role is the plan for the role, renamed. -/
theorem planAdmission_relabel (key : CacheKey N) (role : Role) (nbytes : ℤ)
    (predecessor : Option (CacheKey N)) :
    (p.relabel g).planAdmission key (g role) nbytes predecessor =
      (p.planAdmission key role nbytes predecessor).relabel g := by
  unfold planAdmission
  have hsequences : (p.relabel g).config.maxSequences = p.config.maxSequences := rfl
  have hbytes : (p.relabel g).config.maxBytes = p.config.maxBytes := rfl
  simp only [priorEvictions_relabel, protectedKeys_relabel, capacityLoop_relabel,
    orderedKeys_relabel, hsequences, hbytes]
  split_ifs
  · rfl
  · rfl
  · split <;> rfl

theorem planStable_relabel (key : CacheKey N) (nbytes : ℤ) (reason : AdmissionReason) :
    (p.relabel g).planStable key nbytes reason = (p.planStable key nbytes reason).relabel g := by
  have h := p.planAdmission_relabel g key "stable" nbytes none
  rw [g.apply_stable] at h
  rw [planStable, h]
  rfl

theorem advanceProbation_relabel (key : CacheKey N) (current : EntryState N) :
    (p.relabel g).advanceProbation key (current.relabel g) =
      (p.advanceProbation key current).relabel g := by
  unfold advanceProbation
  have hkey : (p.relabel g).stableCandidateKey = p.stableCandidateKey := rfl
  have hbase : (p.relabel g).stableCandidateBaseHits = p.stableCandidateBaseHits := rfl
  have hhits : (current.relabel g).hits = current.hits := rfl
  rw [hkey, hbase, hhits]
  split_ifs <;> rfl

/-- A stable candidate is judged alike before and after a renaming. -/
theorem planStableCandidate_relabel (key : CacheKey N) (nbytes : ℤ) :
    planStableCandidate key nbytes (p.relabel g) =
      ((planStableCandidate key nbytes p).1.map (AdmissionPlan.relabel g),
        (planStableCandidate key nbytes p).2.relabel g) := by
  have hrejected (reason : AdmissionReason) :
      (⟨false, key, "stable", nbytes, [], reason⟩ : AdmissionPlan N).relabel g =
        ⟨false, key, "stable", nbytes, [], reason⟩ := by
    rw [AdmissionPlan.relabel, g.apply_stable]
  have hsequences : (p.relabel g).config.maxSequences = p.config.maxSequences := rfl
  have hbytes : (p.relabel g).config.maxBytes = p.config.maxBytes := rfl
  unfold planStableCandidate
  rw [hsequences, hbytes, keysForRole_relabel_stable]
  split_ifs with hdisabled
  · simp only [Except.map, hrejected]
  cases p.keysForRole "stable" with
  | nil => simp only [planStable_relabel, Except.map]
  | cons currentKey rest =>
    dsimp only
    rw [relabel_get?]
    cases p.entries.get? currentKey with
    | none => rfl
    | some current =>
      have hhits : (current.relabel g).hits = current.hits := rfl
      have hcount : ((p.advanceProbation key current).relabel g).stableCandidateCount =
          (p.advanceProbation key current).stableCandidateCount := rfl
      simp only [Option.map_some, hhits, advanceProbation_relabel, hcount, planStable_relabel]
      split_ifs
      · rfl
      · rfl
      · rfl
      · simp only [Except.map, hrejected]
        rfl

theorem trimLoop_relabel (targetSequences targetBytes : ℕ) (guarded : Finset (CacheKey N))
    (fuel : ℕ) (evictions : List (Eviction N)) :
    (p.relabel g).trimLoop targetSequences targetBytes guarded fuel evictions =
      p.trimLoop targetSequences targetBytes guarded fuel evictions := by
  induction fuel generalizing evictions with
  | zero => rfl
  | succ fuel ih => simp only [trimLoop, overTargets_relabel, nextVictim_relabel, ih]

/-- A trim does not see the names of the roles. -/
theorem planTrim_relabel (nSequences nBytes : Option ℤ) :
    (p.relabel g).planTrim nSequences nBytes = p.planTrim nSequences nBytes := by
  have hweight (k : CacheKey N) :
      ((p.relabel g).entries.get? k).map EntryState.nbytes =
        (p.entries.get? k).map EntryState.nbytes := by
    rw [relabel_get?, Option.map_map]
    rfl
  have hnone (k : CacheKey N) :
      (p.relabel g).entries.get? k = none ↔ p.entries.get? k = none := by
    rw [relabel_get?, Option.map_eq_none_iff]
  simp only [planTrim, workingKeys_relabel, hnone, hweight, trimLoop_relabel,
    orderedKeys_relabel]
  rfl

/-! ## The commits -/

/-- Removing an entry, from the renamed policy or from the policy itself. -/
theorem removeEntry_relabel (k : CacheKey N) :
    (p.relabel g).removeEntry k =
      ((p.removeEntry k).1.map (EntryState.relabel g), (p.removeEntry k).2.relabel g) := by
  unfold removeEntry
  rw [relabel_get?]
  cases p.entries.get? k with
  | none => rfl
  | some entry =>
    have hbucket : (p.relabel g).buckets.get? (entry.relabel g).role =
        p.buckets.get? entry.role := Dict.get?_mapKeys _ _ _
    have hbuckets : (p.relabel g).buckets = p.buckets.mapKeys g.toEmbedding := rfl
    simp only [Option.map_some, hbucket]
    rw [Prod.mk.injEq]
    refine ⟨rfl, ?_⟩
    unfold relabel
    congr 1
    · exact Dict.erase_mapValues _ _ k
    · dsimp only
      cases p.buckets.get? entry.role with
      | none => rfl
      | some b => exact Dict.insert_mapKeys g.toEmbedding _ _ _

theorem commitEviction_relabel (e : Eviction N) :
    (p.relabel g).commitEviction e = (p.commitEviction e).relabel g := by
  unfold commitEviction
  rw [removeEntry_relabel]
  rcases p.removeEntry e.key with ⟨_ | removed, q⟩
  · rfl
  · cases e.reason <;> try rfl
    simp only [Option.map_some, EntryState.relabel]
    split_ifs <;> rfl

theorem commitTrimEviction_relabel (e : Eviction N) :
    (p.relabel g).commitTrimEviction e = (p.commitTrimEviction e).relabel g := by
  unfold commitTrimEviction
  rw [removeEntry_relabel]
  rcases p.removeEntry e.key with ⟨_ | removed, q⟩
  · rfl
  · simp only [Option.map_some, EntryState.relabel]
    split_ifs <;> rfl

/-- The renamed plan installs the renamed entry. -/
theorem insertEntry_relabel (plan : AdmissionPlan N) :
    (p.relabel g).insertEntry (plan.relabel g) = (p.insertEntry plan).relabel g := by
  have hentry : (⟨plan.key, g plan.role, plan.nbytes,
        decide (g plan.role ∈ (p.relabel g).config.pinRoles), 0⟩ : EntryState N) =
      EntryState.relabel g ⟨plan.key, plan.role, plan.nbytes,
        decide (plan.role ∈ p.config.pinRoles), 0⟩ := by
    simp only [EntryState.relabel, mem_pinRoles_relabel]
  have hentries : ((p.relabel g).insertEntry (plan.relabel g)).entries =
      ((p.insertEntry plan).relabel g).entries := by
    dsimp only [insertEntry, AdmissionPlan.relabel]
    rw [hentry]
    exact Dict.insert_mapValues (EntryState.relabel g) _ _ _
  have hbuckets : ((p.relabel g).insertEntry (plan.relabel g)).buckets =
      ((p.insertEntry plan).relabel g).buckets := by
    dsimp only [insertEntry, AdmissionPlan.relabel]
    rw [bucket_relabel]
    exact Dict.insert_mapKeys g.toEmbedding _ _ _
  calc (p.relabel g).insertEntry (plan.relabel g)
      = { (p.insertEntry plan).relabel g with
          entries := ((p.relabel g).insertEntry (plan.relabel g)).entries
          buckets := ((p.relabel g).insertEntry (plan.relabel g)).buckets } := rfl
    _ = (p.insertEntry plan).relabel g := by rw [hentries, hbuckets]

/-- Committing a renamed plan to the renamed policy. -/
theorem commit_relabel (plan : AdmissionPlan N) :
    (p.relabel g).commit (plan.relabel g) = (p.commit plan).relabel g := by
  have haccepted : (plan.relabel g).accepted = plan.accepted := rfl
  have hevictions : (plan.relabel g).evictions = plan.evictions := rfl
  have hkey : (plan.relabel g).key = plan.key := rfl
  unfold commit
  rw [haccepted, hevictions, hkey]
  split_ifs
  · dsimp only
    rw [foldl_relabel g (fun q => q.commitEviction_relabel g), removeEntry_relabel,
      insertEntry_relabel, commitStable_relabel]
  · rfl

theorem commitTrim_relabel (plan : TrimPlan N) :
    (p.relabel g).commitTrim plan = (p.commitTrim plan).relabel g :=
  foldl_relabel g (fun q => q.commitTrimEviction_relabel g) plan.evictions p

theorem observeHit_relabel (key : CacheKey N) :
    (p.relabel g).observeHit key = ((p.observeHit key).1, (p.observeHit key).2.relabel g) := by
  unfold observeHit
  rw [relabel_get?]
  cases p.entries.get? key with
  | none => rfl
  | some entry =>
    have hentries : (p.relabel g).entries.insert key
          ((⟨entry.key, entry.role, entry.nbytes, entry.pinned, entry.hits + 1⟩ :
            EntryState N).relabel g) =
        (p.entries.insert key { entry with hits := entry.hits + 1 }).mapValues
          (EntryState.relabel g) :=
      Dict.insert_mapValues _ _ key _
    exact Prod.ext rfl (congrArg (fun d => { p.relabel g with entries := d }) hentries)

end WorkingSetPolicy

end StateBraid.Policy
