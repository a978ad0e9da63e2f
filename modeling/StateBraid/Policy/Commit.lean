import StateBraid.Policy.Plan

/-!
# What a commit does to the residents

A committed plan removes exactly its evicted keys and the admitted key from the
entry table and appends the admitted entry last; a committed trim only removes.
Everything later proved about commits is read off these equations.
-/

namespace StateBraid.Policy
open Library

variable {N : Type} [DecidableEq N]

@[simp] theorem mem_evictedKeys {evictions : List (Eviction N)} {k : CacheKey N} :
    k ∈ evictedKeys evictions ↔ ∃ e ∈ evictions, e.key = k := by
  simp [evictedKeys]

@[simp] theorem evictedKeys_nil : evictedKeys ([] : List (Eviction N)) = ∅ := rfl

namespace WorkingSetPolicy

/-- The entry an accepted plan installs. -/
def plannedEntry (p : WorkingSetPolicy N) (plan : AdmissionPlan N) : EntryState N :=
  ⟨plan.key, plan.role, plan.nbytes, decide (plan.role ∈ p.config.pinRoles), 0⟩

@[simp] theorem removeEntry_entries (p : WorkingSetPolicy N) (k : CacheKey N) :
    (p.removeEntry k).2.entries = p.entries.erase k := by
  unfold removeEntry
  split
  · rename_i h
    exact (Dict.erase_eq_self (Dict.get?_eq_none_iff.mp h)).symm
  · rfl

@[simp] theorem removeEntry_fst (p : WorkingSetPolicy N) (k : CacheKey N) :
    (p.removeEntry k).1 = p.entries.get? k := by
  unfold removeEntry
  split <;> simp_all

@[simp] theorem removeEntry_config (p : WorkingSetPolicy N) (k : CacheKey N) :
    (p.removeEntry k).2.config = p.config := by
  unfold removeEntry
  split <;> rfl

@[simp] theorem commitEviction_entries (p : WorkingSetPolicy N) (e : Eviction N) :
    (p.commitEviction e).entries = p.entries.erase e.key := by
  rw [← removeEntry_entries]
  unfold commitEviction
  split
  · simp_all
  · rename_i h
    rw [h]
    cases e.reason <;> try rfl
    dsimp only
    split <;> rfl

@[simp] theorem commitEviction_config (p : WorkingSetPolicy N) (e : Eviction N) :
    (p.commitEviction e).config = p.config := by
  rw [← removeEntry_config p e.key]
  unfold commitEviction
  split
  · simp_all
  · rename_i h
    rw [h]
    cases e.reason <;> try rfl
    dsimp only
    split <;> rfl

@[simp] theorem commitTrimEviction_entries (p : WorkingSetPolicy N) (e : Eviction N) :
    (p.commitTrimEviction e).entries = p.entries.erase e.key := by
  rw [← removeEntry_entries]
  unfold commitTrimEviction
  split
  · simp_all
  · rename_i h
    rw [h]
    dsimp only
    split <;> rfl

@[simp] theorem commitTrimEviction_config (p : WorkingSetPolicy N) (e : Eviction N) :
    (p.commitTrimEviction e).config = p.config := by
  rw [← removeEntry_config p e.key]
  unfold commitTrimEviction
  split
  · simp_all
  · rename_i h
    rw [h]
    dsimp only
    split <;> rfl

/-- A loop of removals leaves the entries whose key was not removed. -/
theorem foldl_erase_entries {remove : WorkingSetPolicy N → Eviction N → WorkingSetPolicy N}
    (hremove : ∀ p e, (remove p e).entries = p.entries.erase e.key)
    (evictions : List (Eviction N)) (p : WorkingSetPolicy N) :
    (evictions.foldl remove p).entries =
      p.entries.filterKeys (fun k => k ∉ evictedKeys evictions) := by
  induction evictions generalizing p with
  | nil => exact (Dict.filterKeys_eq_self (by simp)).symm
  | cons e evictions ih =>
    rw [List.foldl_cons, ih, hremove, Dict.erase, Dict.filterKeys_filterKeys]
    congr 1
    funext k
    simp [eq_comm]

theorem foldl_config {N : Type} {remove : WorkingSetPolicy N → Eviction N → WorkingSetPolicy N}
    (hremove : ∀ p e, (remove p e).config = p.config)
    (evictions : List (Eviction N)) (p : WorkingSetPolicy N) :
    (evictions.foldl remove p).config = p.config := by
  induction evictions generalizing p with
  | nil => rfl
  | cons e evictions ih => rw [List.foldl_cons, ih, hremove]

@[simp] theorem commitStable_entries {N : Type} (p : WorkingSetPolicy N) (plan : AdmissionPlan N) :
    (p.commitStable plan).entries = p.entries := by
  unfold commitStable
  split_ifs <;> rfl

@[simp] theorem commitStable_config {N : Type} (p : WorkingSetPolicy N) (plan : AdmissionPlan N) :
    (p.commitStable plan).config = p.config := by
  unfold commitStable
  split_ifs <;> rfl

theorem commit_rejected (p : WorkingSetPolicy N) {plan : AdmissionPlan N}
    (h : plan.accepted = false) : p.commit plan = p := by
  simp [commit, h]

@[simp] theorem commit_config (p : WorkingSetPolicy N) (plan : AdmissionPlan N) :
    (p.commit plan).config = p.config := by
  unfold commit
  split
  · simp [insertEntry, foldl_config commitEviction_config]
  · rfl

@[simp] theorem commitTrim_config (p : WorkingSetPolicy N) (plan : TrimPlan N) :
    (p.commitTrim plan).config = p.config :=
  foldl_config commitTrimEviction_config _ _

/-- The table after an accepted plan, as a list: what is kept, then the new entry. -/
theorem commit_entries_items (p : WorkingSetPolicy N) {plan : AdmissionPlan N}
    (h : plan.accepted = true) :
    (p.commit plan).entries.items =
      p.entries.items.filter
          (fun kv => kv.1 ∉ evictedKeys plan.evictions ∧ kv.1 ≠ plan.key) ++
        [(plan.key, p.plannedEntry plan)] := by
  simp only [commit, h, if_true, commitStable_entries, insertEntry, removeEntry_entries,
    removeEntry_config, foldl_erase_entries commitEviction_entries,
    foldl_config commitEviction_config]
  rw [Dict.items_insert_of_not_mem _ (by simp [Dict.mem_keys_erase]), Dict.erase,
    Dict.filterKeys_filterKeys]
  rfl

theorem commit_get? (p : WorkingSetPolicy N) {plan : AdmissionPlan N}
    (h : plan.accepted = true) (k : CacheKey N) :
    (p.commit plan).entries.get? k =
      if k = plan.key then some (p.plannedEntry plan)
      else if k ∈ evictedKeys plan.evictions then none
      else p.entries.get? k := by
  simp only [commit, h, if_true, commitStable_entries, insertEntry, removeEntry_entries,
    removeEntry_config, foldl_erase_entries commitEviction_entries,
    foldl_config commitEviction_config, Dict.get?_insert, Dict.get?_erase,
    Dict.get?_filterKeys]
  by_cases hk : k = plan.key
  · simp [hk, plannedEntry]
  · simp only [if_neg hk]
    split_ifs <;> simp_all

theorem commitTrim_entries (p : WorkingSetPolicy N) (plan : TrimPlan N) :
    (p.commitTrim plan).entries =
      p.entries.filterKeys (fun k => k ∉ evictedKeys plan.evictions) :=
  foldl_erase_entries commitTrimEviction_entries _ _

theorem commitTrim_get? (p : WorkingSetPolicy N) (plan : TrimPlan N) (k : CacheKey N) :
    (p.commitTrim plan).entries.get? k =
      if k ∈ evictedKeys plan.evictions then none else p.entries.get? k := by
  rw [commitTrim_entries, Dict.get?_filterKeys]
  split_ifs <;> simp_all

/-! ## The probation does not touch the residents -/

@[simp] theorem advanceProbation_entries (p : WorkingSetPolicy N) (key : CacheKey N)
    (current : EntryState N) : (p.advanceProbation key current).entries = p.entries := by
  unfold advanceProbation
  split_ifs <;> rfl

@[simp] theorem advanceProbation_buckets (p : WorkingSetPolicy N) (key : CacheKey N)
    (current : EntryState N) : (p.advanceProbation key current).buckets = p.buckets := by
  unfold advanceProbation
  split_ifs <;> rfl

@[simp] theorem advanceProbation_config (p : WorkingSetPolicy N) (key : CacheKey N)
    (current : EntryState N) : (p.advanceProbation key current).config = p.config := by
  unfold advanceProbation
  split_ifs <;> rfl

@[simp] theorem advanceProbation_nbytes (p : WorkingSetPolicy N) (key : CacheKey N)
    (current : EntryState N) : (p.advanceProbation key current).nbytes = p.nbytes := by
  unfold advanceProbation
  split_ifs <;> rfl

/-- Two policies with the same residents, limits and byte total: they differ at most
in counters and in the probation of a candidate. -/
structure SameResidents (p q : WorkingSetPolicy N) : Prop where
  config : q.config = p.config
  entries : q.entries = p.entries
  buckets : q.buckets = p.buckets
  nbytes : q.nbytes = p.nbytes

namespace SameResidents

theorem refl {N : Type} (p : WorkingSetPolicy N) : SameResidents p p := ⟨rfl, rfl, rfl, rfl⟩

end SameResidents

/-- The six outcomes of planning a stable candidate, plus the lookup that can raise:
a rejection, an admission planned in the state before, or the promotion of a candidate
that missed twice, planned after its probation was advanced. -/
inductive StableOutcome (p : WorkingSetPolicy N) (key : CacheKey N) (nbytes : ℤ) :
    Except PyError (AdmissionPlan N) × WorkingSetPolicy N → Prop
  | disabled (h : p.config.maxSequences ≤ 0 ∨ p.config.maxBytes ≤ 0 ∨
      nbytes > p.config.maxBytes) :
      StableOutcome p key nbytes
        (.ok ⟨false, key, "stable", nbytes, [], .oversizedOrDisabled⟩, p)
  | empty (h : p.keysForRole "stable" = []) :
      StableOutcome p key nbytes (.ok (p.planStable key nbytes .stableEmpty), p)
  | dangling {currentKey : CacheKey N}
      (hhead : (p.keysForRole "stable").head? = some currentKey)
      (h : p.entries.get? currentKey = none) :
      StableOutcome p key nbytes
        (.error (.keyError "stable bucket key without entry"), p)
  | refresh : StableOutcome p key nbytes (.ok (p.planStable key nbytes .stableRefresh), p)
  | coldLarger : StableOutcome p key nbytes (.ok (p.planStable key nbytes .stableColdLarger), p)
  | repeatedMiss {currentKey : CacheKey N} {current : EntryState N}
      (hhead : (p.keysForRole "stable").head? = some currentKey)
      (hcurrent : p.entries.get? currentKey = some current) (hother : currentKey ≠ key)
      (hwarm : ¬ (current.hits = 0 ∧ key.tokens.length > currentKey.tokens.length))
      (hcount : (p.advanceProbation key current).stableCandidateCount ≥ 2) :
      StableOutcome p key nbytes
        (.ok ((p.advanceProbation key current).planStable key nbytes .stableRepeatedMiss),
          p.advanceProbation key current)
  | probation {current : EntryState N} :
      StableOutcome p key nbytes
        (.ok ⟨false, key, "stable", nbytes, [], .stableProbation⟩,
          { p.advanceProbation key current with
            stableCandidateRejections :=
              (p.advanceProbation key current).stableCandidateRejections + 1 })

theorem planStableCandidate_outcome (p : WorkingSetPolicy N) (key : CacheKey N) (nbytes : ℤ) :
    StableOutcome p key nbytes (planStableCandidate key nbytes p) := by
  unfold planStableCandidate
  split_ifs with hdisabled
  · exact .disabled hdisabled
  split
  · exact .empty (by assumption)
  · rename_i currentKey rest hkeys
    split
    · have hhead : (p.keysForRole "stable").head? = some currentKey := by simp [hkeys]
      exact .dangling hhead (by assumption)
    · rename_i current hcurrent
      split_ifs with hself hcold
      · exact .refresh
      · exact .coldLarger
      · dsimp only
        split_ifs with hcount
        · exact .repeatedMiss (by simp [hkeys]) hcurrent hself hcold hcount
        · exact .probation

/-- Planning a stable candidate leaves the residents as they are. -/
theorem planStableCandidate_sameResidents (p : WorkingSetPolicy N) (key : CacheKey N)
    (nbytes : ℤ) : SameResidents p (planStableCandidate key nbytes p).2 := by
  have h := planStableCandidate_outcome p key nbytes
  generalize planStableCandidate key nbytes p = r at h
  cases h with
  | disabled | empty | dangling | refresh | coldLarger => exact .refl p
  | repeatedMiss => exact ⟨by simp, by simp, by simp, by simp⟩
  | probation => exact ⟨by simp, by simp, by simp, by simp⟩

end WorkingSetPolicy

end StateBraid.Policy
