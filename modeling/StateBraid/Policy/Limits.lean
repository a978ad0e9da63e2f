import StateBraid.Policy.Commit

/-!
# The hard limits

The capacity loop stops only in a projection within both limits, and the projection
is exactly the table that commit leaves. Removals keep the limits because no resident
has a negative size, which holds since planned sizes are clamped at zero.
-/

namespace StateBraid.Policy
open Library

variable {N : Type} [DecidableEq N]

namespace WorkingSetPolicy

/-- The sum of the sizes of the resident entries. -/
def residentBytes (p : WorkingSetPolicy N) : ℤ :=
  (p.entries.items.map (fun kv => kv.2.nbytes)).sum

/-- Sizes are non-negative and both limits are respected. -/
structure WithinLimits (p : WorkingSetPolicy N) : Prop where
  nonneg : ∀ e ∈ p.entries.values, 0 ≤ e.nbytes
  sequences : p.nSequences ≤ p.config.maxSequences
  bytes : p.residentBytes ≤ p.config.maxBytes

theorem new_withinLimits {N : Type} (config : PolicyConfig) :
    (new config : WorkingSetPolicy N).WithinLimits where
  nonneg := by simp [new]
  sequences := by simp [new, nSequences, Dict.size]
  bytes := by simp [new, residentBytes]

/-- The loop accepts only a projection within the limits. -/
theorem capacityLoop_accepts {p : WorkingSetPolicy N} {key : CacheKey N} {nbytes : ℤ}
    {guarded : Finset (CacheKey N)} {fuel : ℕ} {prior evictions : List (Eviction N)}
    (h : p.capacityLoop key nbytes guarded fuel prior = (evictions, true)) :
    p.projectedOverLimit key nbytes (evictedKeys evictions) = false := by
  induction fuel generalizing prior with
  | zero =>
    simp only [capacityLoop, Prod.mk.injEq] at h
    obtain ⟨rfl, hover⟩ := h
    simpa using hover
  | succ fuel ih =>
    simp only [capacityLoop] at h
    split at h
    · split at h
      · exact ih h
      · split at h
        · exact ih h
        · simp at h
    · rename_i hover
      simp only [Prod.mk.injEq, and_true] at h
      subst h
      simpa using hover

/-- An admission plan names its arguments, with the size clamped at zero, and when it
is accepted its evictions bring the projection within the limits. -/
theorem planAdmission_spec (p : WorkingSetPolicy N) (key : CacheKey N) (role : Role)
    (nbytes : ℤ) (predecessor : Option (CacheKey N)) :
    (p.planAdmission key role nbytes predecessor).key = key ∧
      (p.planAdmission key role nbytes predecessor).role = role ∧
      (p.planAdmission key role nbytes predecessor).nbytes = max 0 nbytes ∧
      ((p.planAdmission key role nbytes predecessor).accepted = true →
        p.projectedOverLimit key (max 0 nbytes)
          (evictedKeys (p.planAdmission key role nbytes predecessor).evictions) = false) := by
  unfold planAdmission
  dsimp only
  split_ifs
  · simp
  · simp
  · split
    · rename_i hloop
      exact ⟨rfl, rfl, rfl, fun _ => capacityLoop_accepts hloop⟩
    · simp

/-- A plan whose commit respects the limits in the state it was made in. -/
structure FitsLimits (p : WorkingSetPolicy N) (plan : AdmissionPlan N) : Prop where
  nonneg : plan.accepted = true → 0 ≤ plan.nbytes
  fits : plan.accepted = true →
    p.projectedOverLimit plan.key plan.nbytes (evictedKeys plan.evictions) = false

theorem planAdmission_fits (p : WorkingSetPolicy N) (key : CacheKey N) (role : Role)
    (nbytes : ℤ) (predecessor : Option (CacheKey N)) :
    FitsLimits p (p.planAdmission key role nbytes predecessor) := by
  obtain ⟨hkey, -, hbytes, hover⟩ := p.planAdmission_spec key role nbytes predecessor
  refine ⟨fun _ => ?_, fun h => ?_⟩
  · rw [hbytes]
    exact le_max_left 0 nbytes
  · rw [hkey, hbytes]
    exact hover h

theorem fitsLimits_rejected (p : WorkingSetPolicy N) {plan : AdmissionPlan N}
    (h : plan.accepted = false) : FitsLimits p plan :=
  ⟨by simp [h], by simp [h]⟩

/-- A stable candidate's plan fits the state its planning leaves. -/
theorem planStableCandidate_fits {p q : WorkingSetPolicy N} {key : CacheKey N} {nbytes : ℤ}
    {plan : AdmissionPlan N} (h : planStableCandidate key nbytes p = (.ok plan, q)) :
    FitsLimits q plan := by
  have hout := p.planStableCandidate_outcome key nbytes
  rw [h] at hout
  have hplan (p' : WorkingSetPolicy N) (reason : AdmissionReason) :
      FitsLimits p' (p'.planStable key nbytes reason) :=
    ⟨(p'.planAdmission_fits key "stable" nbytes none).nonneg,
      (p'.planAdmission_fits key "stable" nbytes none).fits⟩
  cases hout with
  | disabled => exact fitsLimits_rejected p rfl
  | probation => exact fitsLimits_rejected _ rfl
  | empty | refresh | coldLarger | repeatedMiss => exact hplan _ _

/-- A stable candidate's plan is for the candidate, under the stable role. -/
theorem planStableCandidate_plan {p q : WorkingSetPolicy N} {key : CacheKey N} {nbytes : ℤ}
    {plan : AdmissionPlan N} (h : planStableCandidate key nbytes p = (.ok plan, q)) :
    plan.key = key ∧ plan.role = "stable" := by
  have hout := p.planStableCandidate_outcome key nbytes
  rw [h] at hout
  have hplan (p' : WorkingSetPolicy N) (reason : AdmissionReason) :
      (p'.planStable key nbytes reason).key = key ∧
        (p'.planStable key nbytes reason).role = "stable" :=
    ⟨(p'.planAdmission_spec key "stable" nbytes none).1,
      (p'.planAdmission_spec key "stable" nbytes none).2.1⟩
  cases hout with
  | disabled | probation => exact ⟨rfl, rfl⟩
  | empty | refresh | coldLarger | repeatedMiss => exact hplan _ _

/-- The limits only look at the entry table and the configuration. -/
theorem WithinLimits.congr {N : Type} {p q : WorkingSetPolicy N} (h : p.WithinLimits)
    (hentries : q.entries = p.entries) (hconfig : q.config = p.config) : q.WithinLimits where
  nonneg := by rw [hentries]; exact h.nonneg
  sequences := by
    rw [nSequences, hentries, hconfig]
    exact h.sequences
  bytes := by
    rw [residentBytes, hentries, hconfig]
    exact h.bytes

/-- The projection made before commit is the table commit leaves. -/
theorem commit_withinLimits {p : WorkingSetPolicy N} {plan : AdmissionPlan N}
    (h : p.WithinLimits) (hplan : FitsLimits p plan) : (p.commit plan).WithinLimits := by
  cases hacc : plan.accepted with
  | false => rwa [commit_rejected p hacc]
  | true =>
    have hitems := p.commit_entries_items hacc
    have hover := hplan.fits hacc
    simp only [projectedOverLimit, projectedState, keptEntries, decide_eq_false_iff_not, not_or,
      not_lt, gt_iff_lt, List.length_map, List.map_map] at hover
    constructor
    · intro e he
      rw [Dict.values, hitems, List.map_append, List.mem_append] at he
      rcases he with he | he
      · obtain ⟨kv, hkv, rfl⟩ := List.mem_map.mp he
        exact h.nonneg _ (List.mem_map_of_mem (List.mem_of_mem_filter hkv))
      · simp only [List.map_cons, List.map_nil, List.mem_singleton] at he
        rw [he]
        exact hplan.nonneg hacc
    · rw [nSequences, Dict.size, hitems, List.length_append, commit_config]
      exact hover.1
    · rw [residentBytes, hitems, List.map_append, List.sum_append, commit_config]
      simpa [plannedEntry, Function.comp_def] using hover.2

/-- Removing residents keeps the limits. -/
theorem filterKeys_withinLimits {N : Type} {p q : WorkingSetPolicy N} {keep : CacheKey N → Prop}
    [DecidablePred keep] (h : p.WithinLimits) (hentries : q.entries = p.entries.filterKeys keep)
    (hconfig : q.config = p.config) : q.WithinLimits := by
  have hsub : q.entries.items.Sublist p.entries.items := by
    rw [hentries]
    exact List.filter_sublist
  refine ⟨fun e he => h.nonneg e ((hsub.map _).subset he), ?_, ?_⟩
  · rw [nSequences, hconfig]
    exact hsub.length_le.trans h.sequences
  · rw [hconfig]
    refine le_trans ?_ h.bytes
    exact (hsub.map _).sum_le_sum (by
      intro x hx
      obtain ⟨kv, hkv, rfl⟩ := List.mem_map.mp hx
      exact h.nonneg _ (List.mem_map_of_mem hkv))

theorem commitTrim_withinLimits {p : WorkingSetPolicy N} (h : p.WithinLimits)
    (plan : TrimPlan N) : (p.commitTrim plan).WithinLimits :=
  filterKeys_withinLimits h (commitTrim_entries p plan) (commitTrim_config p plan)

theorem observeHit_withinLimits {p : WorkingSetPolicy N} (h : p.WithinLimits)
    (key : CacheKey N) : (p.observeHit key).2.WithinLimits := by
  unfold observeHit
  split
  · exact h
  · rename_i entry hentry
    refine ⟨fun e he => ?_, ?_, ?_⟩
    · rcases Dict.mem_values_insert he with rfl | hold
      · exact h.nonneg entry (Dict.mem_values_of_get? hentry)
      · exact h.nonneg e hold
    · rw [nSequences, Dict.size_insert_of_mem _ (Dict.mem_keys_of_get? hentry)]
      exact h.sequences
    · simp only [residentBytes, Dict.sum_insert _ _ hentry]
      have := h.bytes
      rw [residentBytes] at this
      linarith

end WorkingSetPolicy

end StateBraid.Policy
