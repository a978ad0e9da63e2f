import StateBraid.Coordinator.MapBackend

/-!
# Agreement of the policy with the backend's map

`Agrees last v p`: the map `v` holds exactly the residents of the policy `p`, each
with the value that `last` records for its key. Every operation of the coordinator
keeps the agreement, with `last` moving on only when an admission returned true.
-/

namespace StateBraid.Coordinator
open Library Policy WorkingSetPolicy

variable {N σ π τ : Type} [DecidableEq N]

/-- The map and the policy have the same keys, and the map's values are the recorded ones. -/
structure Agrees (last v : CacheKey N → Option τ) (p : WorkingSetPolicy N) : Prop where
  resident : ∀ k ∈ p.entries.keys, ∃ t, v k = some t ∧ last k = some t
  absent : ∀ k ∉ p.entries.keys, v k = none

namespace Agrees

variable {last v : CacheKey N → Option τ} {p q : WorkingSetPolicy N}

theorem isSome_iff (h : Agrees last v p) (k : CacheKey N) :
    (v k).isSome ↔ k ∈ p.entries.keys := by
  by_cases hk : k ∈ p.entries.keys
  · obtain ⟨t, ht, -⟩ := h.resident k hk
    simp [ht, hk]
  · simp [h.absent k hk, hk]

theorem value_eq (h : Agrees last v p) {k : CacheKey N} {t : τ} (hk : v k = some t) :
    last k = some t := by
  have hmem : k ∈ p.entries.keys := (h.isSome_iff k).mp (by simp [hk])
  obtain ⟨t', ht', hlast⟩ := h.resident k hmem
  rw [hk] at ht'
  rw [hlast, ht']

/-- The agreement only looks at the keys of the entry table. -/
theorem congr {N τ : Type} {last v : CacheKey N → Option τ} {p q : WorkingSetPolicy N}
    (h : Agrees last v p) (hkeys : ∀ k, k ∈ q.entries.keys ↔ k ∈ p.entries.keys) :
    Agrees last v q where
  resident k hk := h.resident k ((hkeys k).mp hk)
  absent k hk := h.absent k (fun hp => hk ((hkeys k).mpr hp))

/-- Forgetting what the values were recorded as. -/
theorem self {N τ : Type} {last v : CacheKey N → Option τ} {p : WorkingSetPolicy N}
    (h : Agrees last v p) : Agrees v v p where
  resident k hk := by
    obtain ⟨t, ht, -⟩ := h.resident k hk
    exact ⟨t, ht, ht⟩
  absent := h.absent

/-- Committing an accepted plan is installing it. -/
theorem commit (h : Agrees last v p) {plan : AdmissionPlan N} (hacc : plan.accepted = true)
    (t : τ) :
    Agrees (Function.update last plan.key (some t)) (installed v plan t) (p.commit plan) := by
  have hkeys (k : CacheKey N) : k ∈ (p.commit plan).entries.keys ↔
      k = plan.key ∨ k ∉ evictedKeys plan.evictions ∧ k ∈ p.entries.keys := by
    rw [← Dict.isSome_get?, commit_get? p hacc, ← Dict.isSome_get?]
    split_ifs <;> simp_all
  constructor
  · intro k hk
    by_cases hself : k = plan.key
    · subst hself
      exact ⟨t, by simp [installed], by simp⟩
    · obtain ⟨hevicted, hmem⟩ := ((hkeys k).mp hk).resolve_left hself
      rw [installed, if_neg hself, if_neg hevicted, Function.update_of_ne hself]
      exact h.resident k hmem
  · intro k hk
    rw [hkeys, not_or, not_and] at hk
    rw [installed, if_neg hk.1]
    split_ifs with hevicted
    · rfl
    · exact h.absent k (hk.2 hevicted)

/-- Committing a trim is removing its victims. -/
theorem commitTrim (h : Agrees last v p) (plan : TrimPlan N) :
    Agrees last (without v (plan.evictions.map Eviction.key)) (p.commitTrim plan) := by
  have hkeys (k : CacheKey N) : k ∈ (p.commitTrim plan).entries.keys ↔
      k ∉ plan.evictions.map Eviction.key ∧ k ∈ p.entries.keys := by
    have hevicted : k ∈ evictedKeys plan.evictions ↔ k ∈ plan.evictions.map Eviction.key :=
      List.mem_toFinset
    rw [← Dict.isSome_get?, commitTrim_get?, ← Dict.isSome_get?]
    by_cases hk : k ∈ plan.evictions.map Eviction.key
    · simp [hk, hevicted.mpr hk]
    · simp [hk, mt hevicted.mp hk]
  constructor
  · intro k hk
    obtain ⟨hgone, hmem⟩ := (hkeys k).mp hk
    rw [without, if_neg hgone]
    exact h.resident k hmem
  · intro k hk
    rw [hkeys, not_and] at hk
    rw [without]
    split_ifs with hgone
    · rfl
    · exact h.absent k (hk hgone)

end Agrees

/-! ## The operations keep the agreement -/

section Operations

variable {B : TransactionalBackend N σ π τ} {S : MapSpec N σ π τ} {last : CacheKey N → Option τ}

/-- What `last` becomes when an admission of `key` ends with this result. -/
def recordAdmission (last : CacheKey N → Option τ) (key : CacheKey N) (t : τ) (accepted : Bool) :
    CacheKey N → Option τ :=
  if accepted then Function.update last key (some t) else last

/-- The coordinator's two sides agree, and the backend's invariant holds. -/
structure AgreesWith (S : MapSpec N σ π τ) (last : CacheKey N → Option τ)
    (c : CacheCoordinator N σ) : Prop where
  inv : S.inv c.backend
  agrees : Agrees last (S.view c.backend) c.policy

theorem admit_agrees (h : MapBackend B S) (plan : AdmissionPlan N) (payload : π)
    (hoffered : S.offered plan.key payload) {c : CacheCoordinator N σ} (hc : AgreesWith S last c)
    (hvalid : ∀ k ∈ affectedKeys plan, S.valid k)
    (hsound : ∀ k ∈ affectedKeys plan, ∀ t, S.view c.backend k = some t → S.sound k t) :
    Exec.Holds
      (fun accepted => AgreesWith S
        (recordAdmission last plan.key (S.stored payload plan.role) accepted))
      (fun _ => AgreesWith S last) (admitPlan B plan payload c) := by
  refine (h.admit_spec plan payload hoffered hvalid hsound).weaken (fun _ hs => hs) ?_ ?_ c
    ⟨rfl, hc.inv, rfl⟩
  · rintro accepted c' ⟨rfl, hpolicy, hinv, hview⟩
    refine ⟨hinv, ?_⟩
    rw [hpolicy, hview]
    cases hacc : plan.accepted with
    | false =>
      rw [commit_rejected _ hacc]
      exact hc.agrees
    | true => exact hc.agrees.commit hacc (S.stored payload plan.role)
  · rintro e c' ⟨hpolicy, hinv, hview⟩
    refine ⟨hinv, ?_⟩
    rw [hpolicy, hview]
    exact hc.agrees

theorem trim_agrees (h : MapBackend B S) (plan : TrimPlan N) {c : CacheCoordinator N σ}
    (hc : AgreesWith S last c) (hvalid : ∀ k ∈ plan.evictions.map Eviction.key, S.valid k)
    (hsound : ∀ k ∈ plan.evictions.map Eviction.key, ∀ t, S.view c.backend k = some t → S.sound k t) :
    Exec.Holds (fun _ => AgreesWith S last) (fun _ => AgreesWith S last)
      (Coordinator.trim B plan c) := by
  refine (h.trim_spec plan hvalid hsound).weaken (fun _ hs => hs) ?_ ?_ c ⟨rfl, hc.inv, rfl⟩
  · rintro _ c' ⟨hpolicy, hinv, hview⟩
    refine ⟨hinv, ?_⟩
    rw [hpolicy, hview]
    exact hc.agrees.commitTrim plan
  · rintro e c' ⟨hpolicy, hinv, hview⟩
    refine ⟨hinv, ?_⟩
    rw [hpolicy, hview]
    exact hc.agrees

theorem forgetRemoteKey_agrees (h : ForgettingBackend B S) {key : CacheKey N}
    (removed : List (CacheKey N)) {c : CacheCoordinator N σ} (hc : AgreesWith S last c)
    (hvalid : S.valid key) (hsound : ∀ t, S.view c.backend key = some t → S.sound key t) :
    Exec.Holds (fun _ => AgreesWith S last) (fun _ => AgreesWith S last)
      (Coordinator.forgetRemoteKey B removed key c) := by
  refine (h.forgetRemoteKey_spec hvalid hsound removed).weaken (fun _ hs => hs) ?_ ?_ c
    ⟨rfl, hc.inv, rfl⟩
  · rintro _ c' ⟨hpolicy, hinv, hview⟩
    have hforgot := hc.agrees.commitTrim (forgetPlan key)
    refine ⟨hinv, ?_⟩
    rw [hpolicy, hview]
    split_ifs with hkey
    · exact hforgot
    · refine hforgot.congr fun k => ?_
      have hmem : key ∉ c.policy.entries.keys := fun hk => hkey ((hc.agrees.isSome_iff key).mpr hk)
      have hne : k ∈ c.policy.entries.keys → k ≠ key := fun hk he => hmem (he ▸ hk)
      simp only [commitTrim_entries, Dict.keys_filterKeys, List.mem_filter, decide_eq_true_eq,
        forgetPlan, mem_evictedKeys, List.mem_singleton, exists_eq_left]
      exact ⟨fun hk => ⟨hk, fun he => hne hk he.symm⟩, fun hk => hk.1⟩
  · rintro e c' ⟨hpolicy, hinv, hview⟩
    refine ⟨hinv, ?_⟩
    rw [hpolicy, hview]
    exact hc.agrees

theorem observeHit_keys (p : WorkingSetPolicy N) (key k : CacheKey N) :
    k ∈ (p.observeHit key).2.entries.keys ↔ k ∈ p.entries.keys := by
  unfold WorkingSetPolicy.observeHit
  split
  · exact Iff.rfl
  · rename_i entry hentry
    rw [Dict.mem_keys_insert]
    exact or_iff_right_of_imp fun he => he ▸ Dict.mem_keys_of_get? hentry

theorem observeHit_agrees {c : CacheCoordinator N σ} (hc : AgreesWith S last c)
    (key : CacheKey N) : AgreesWith S last (Coordinator.observeHit key c).2 :=
  ⟨hc.inv, hc.agrees.congr (observeHit_keys c.policy key)⟩

end Operations

end StateBraid.Coordinator
