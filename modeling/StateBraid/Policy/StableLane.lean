import StateBraid.Policy.Representation

/-!
# The stable lane

A stable admission rotates every other stable resident out, so the lane never holds
more than one. Its resident is the incumbent that stable candidates are measured
against.
-/

namespace StateBraid.Policy
open Library

variable {N : Type} [DecidableEq N]

/-! ## What later planning keeps of earlier evictions -/

theorem addEvict_subset (key : CacheKey N) (evictions : List (Eviction N))
    (candidate : Option (CacheKey N)) (reason : EvictionReason) :
    evictions ⊆ addEvict key evictions candidate reason := by
  unfold addEvict
  split
  · exact List.Subset.refl _
  · split
    · exact List.subset_append_left _ _
    · exact List.Subset.refl _

/-- A candidate other than the admitted key is evicted, now or before. -/
theorem mem_addEvict {key c : CacheKey N} (hne : c ≠ key) (evictions : List (Eviction N))
    (reason : EvictionReason) :
    c ∈ evictedKeys (addEvict key evictions (some c) reason) := by
  by_cases hmem : c ∈ evictedKeys evictions
  · obtain ⟨e, he, rfl⟩ := mem_evictedKeys.mp hmem
    exact mem_evictedKeys.mpr ⟨e, addEvict_subset _ _ _ _ he, rfl⟩
  · rw [addEvict, if_pos ⟨hne, hmem⟩]
    exact mem_evictedKeys.mpr ⟨⟨c, reason⟩, by simp, rfl⟩

theorem evictedKeys_subset {evictions evictions' : List (Eviction N)} (h : evictions ⊆ evictions') :
    evictedKeys evictions ⊆ evictedKeys evictions' := by
  intro k hk
  obtain ⟨e, he, rfl⟩ := mem_evictedKeys.mp hk
  exact mem_evictedKeys.mpr ⟨e, h he, rfl⟩

namespace WorkingSetPolicy

variable {p q : WorkingSetPolicy N}

theorem capacityLoop_subset (key : CacheKey N) (nbytes : ℤ) (guarded : Finset (CacheKey N))
    (fuel : ℕ) (evictions : List (Eviction N)) :
    evictions ⊆ (p.capacityLoop key nbytes guarded fuel evictions).1 := by
  induction fuel generalizing evictions with
  | zero => exact List.Subset.refl _
  | succ fuel ih =>
    rw [capacityLoop]
    split
    · split
      · exact List.Subset.trans (addEvict_subset _ _ _ _) (ih _)
      · split
        · exact List.Subset.trans (addEvict_subset _ _ _ _) (ih _)
        · exact List.Subset.refl _
    · exact List.Subset.refl _

theorem compactLineage_subset (key : CacheKey N) (role : Role)
    (predecessor : Option (CacheKey N)) (evictions : List (Eviction N)) :
    evictions ⊆ p.compactLineage key role predecessor evictions := by
  unfold compactLineage
  split
  · exact List.Subset.refl _
  · split
    · exact addEvict_subset _ _ _ _
    · exact List.Subset.refl _

theorem compactLineage_of_ne {key : CacheKey N} {role : Role} (h : role ≠ "active")
    (predecessor : Option (CacheKey N)) (evictions : List (Eviction N)) :
    p.compactLineage key role predecessor evictions = evictions := by
  unfold compactLineage
  split
  · rfl
  · exact if_neg fun hactive => h hactive.1

theorem enforcePinQuota_subset (key : CacheKey N) (role : Role) (evictions : List (Eviction N)) :
    evictions ⊆ p.enforcePinQuota key role evictions := by
  unfold enforcePinQuota
  dsimp only
  split
  · exact addEvict_subset _ _ _ _
  · split
    · exact addEvict_subset _ _ _ _
    · exact List.Subset.refl _

/-- Only a policy with room for anything accepts, and only what is not too large for it. -/
theorem planAdmission_accepted {key : CacheKey N} {role : Role} {nbytes : ℤ}
    {predecessor : Option (CacheKey N)}
    (h : (p.planAdmission key role nbytes predecessor).accepted = true) :
    0 < p.config.maxSequences ∧ 0 < p.config.maxBytes ∧ max 0 nbytes ≤ p.config.maxBytes := by
  unfold planAdmission at h
  dsimp only at h
  split_ifs at h with hzero hlarge
  exact ⟨by omega, by omega, not_lt.mp hlarge⟩

/-- A plain admission is never reported as a stable one. -/
theorem planAdmission_reason (p : WorkingSetPolicy N) (key : CacheKey N) (role : Role) (nbytes : ℤ)
    (predecessor : Option (CacheKey N)) :
    (p.planAdmission key role nbytes predecessor).reason.isStable = false := by
  unfold planAdmission
  dsimp only
  split_ifs
  · rfl
  · rfl
  · split <;> rfl

/-- An accepted plan carries out everything decided before the capacity loop. -/
theorem priorEvictions_subset {key : CacheKey N} {role : Role} {nbytes : ℤ}
    {predecessor : Option (CacheKey N)}
    (h : (p.planAdmission key role nbytes predecessor).accepted = true) :
    p.priorEvictions key role predecessor ⊆
      (p.planAdmission key role nbytes predecessor).evictions := by
  have hloop := capacityLoop_subset (p := p) key (max 0 nbytes)
    (p.protectedKeys key role (max 0 nbytes) (p.priorEvictions key role predecessor))
    p.orderedKeys.length (p.priorEvictions key role predecessor)
  unfold planAdmission at h ⊢
  dsimp only at h ⊢
  split_ifs at h ⊢
  split at h <;> rename_i hresult
  · rw [hresult] at hloop
    exact hloop
  · cases h

/-! ## Rotation -/

/-- A fold of `addEvict` over candidates writes down all of them but the admitted key. -/
theorem mem_foldl_addEvict {key k : CacheKey N} {reason : EvictionReason}
    (hne : k ≠ key) (keys : List (CacheKey N)) (evictions : List (Eviction N))
    (hk : k ∈ keys ∨ k ∈ evictedKeys evictions) :
    k ∈ evictedKeys (keys.foldl (fun ev j => addEvict key ev (some j) reason) evictions) := by
  induction keys generalizing evictions with
  | nil => exact hk.resolve_left (by simp)
  | cons j keys ih =>
    refine ih _ ?_
    rcases hk with hk | hk
    · rcases List.mem_cons.mp hk with rfl | hk
      · exact Or.inr (mem_addEvict hne _ _)
      · exact Or.inl hk
    · exact Or.inr (evictedKeys_subset (addEvict_subset _ _ _ _) hk)

theorem mem_rotateStable {key k : CacheKey N} (hne : k ≠ key)
    (hk : k ∈ p.keysForRole "stable") :
    k ∈ evictedKeys (p.rotateStable key "stable") := by
  rw [rotateStable, if_pos rfl]
  exact mem_foldl_addEvict hne _ _ (Or.inl hk)

theorem rotateStable_subset_prior (key : CacheKey N) (role : Role)
    (predecessor : Option (CacheKey N)) :
    p.rotateStable key role ⊆ p.priorEvictions key role predecessor :=
  List.Subset.trans (compactLineage_subset _ _ _ _) (enforcePinQuota_subset _ _ _)

/-- When it is accepted, a plan under the stable role evicts the other stable residents. -/
def Rotates (p : WorkingSetPolicy N) (plan : AdmissionPlan N) : Prop :=
  plan.accepted = true → plan.role = "stable" →
    ∀ k ∈ p.keysForRole "stable", k ≠ plan.key → k ∈ evictedKeys plan.evictions

theorem planAdmission_rotates (p : WorkingSetPolicy N) (key : CacheKey N) (role : Role)
    (nbytes : ℤ) (predecessor : Option (CacheKey N)) :
    p.Rotates (p.planAdmission key role nbytes predecessor) := by
  intro hacc hrole k hk hne
  obtain ⟨hplanKey, hplanRole, -, -⟩ := p.planAdmission_spec key role nbytes predecessor
  rw [hplanKey] at hne
  rw [hplanRole] at hrole
  subst hrole
  exact evictedKeys_subset
    (List.Subset.trans (rotateStable_subset_prior _ _ _) (priorEvictions_subset hacc))
    (mem_rotateStable hne hk)

/-- What planning a stable candidate returns: a rejection, or the admission plan of the
state it leaves, under its own reason. -/
theorem planStableCandidate_eq {key : CacheKey N} {nbytes : ℤ} {plan : AdmissionPlan N}
    (h : planStableCandidate key nbytes p = (.ok plan, q)) :
    plan.accepted = false ∨
      ∃ reason, reason.isStable = true ∧ plan = q.planStable key nbytes reason := by
  have hout := p.planStableCandidate_outcome key nbytes
  rw [h] at hout
  cases hout with
  | disabled | probation => exact Or.inl rfl
  | empty | refresh | coldLarger | repeatedMiss => exact Or.inr ⟨_, rfl, rfl⟩

theorem planStableCandidate_accepted {key : CacheKey N} {nbytes : ℤ} {plan : AdmissionPlan N}
    (h : planStableCandidate key nbytes p = (.ok plan, q)) (hacc : plan.accepted = true) :
    ∃ reason, reason.isStable = true ∧ plan = q.planStable key nbytes reason :=
  (planStableCandidate_eq h).resolve_left (by simp [hacc])

theorem planStableCandidate_rotates {key : CacheKey N} {nbytes : ℤ} {plan : AdmissionPlan N}
    (h : planStableCandidate key nbytes p = (.ok plan, q)) : q.Rotates plan := by
  intro hacc
  obtain ⟨reason, -, rfl⟩ := planStableCandidate_accepted h hacc
  exact q.planAdmission_rotates key "stable" nbytes none hacc

/-! ## At most one stable resident -/

/-- Buckets list the residents of their role. -/
theorem Represents.mem_keysForRole_iff (h : p.Represents) {role : Role} {k : CacheKey N} :
    k ∈ p.keysForRole role ↔ ∃ e, p.entries.get? k = some e ∧ e.role = role := by
  constructor
  · exact h.resident
  · rintro ⟨e, he, rfl⟩
    exact h.bucketed he

/-- The table and the buckets agree, and at most one resident is stable. -/
structure StableLane (p : WorkingSetPolicy N) : Prop where
  represents : p.Represents
  unique : ∀ {j k d e}, p.entries.get? j = some d → d.role = "stable" →
    p.entries.get? k = some e → e.role = "stable" → j = k

namespace StableLane

theorem new (config : PolicyConfig) :
    (WorkingSetPolicy.new config : WorkingSetPolicy N).StableLane where
  represents := new_represents config
  unique h := by simp [WorkingSetPolicy.new] at h

theorem congr (h : p.StableLane) (hsame : SameResidents p q) : q.StableLane where
  represents := h.represents.congr hsame
  unique := by
    rw [hsame.entries]
    exact h.unique

theorem commit (h : p.StableLane) {plan : AdmissionPlan N} (hrotates : p.Rotates plan) :
    (p.commit plan).StableLane := by
  refine ⟨commit_represents h.represents plan, ?_⟩
  cases hacc : plan.accepted with
  | false =>
    rw [commit_rejected p hacc]
    exact h.unique
  | true =>
    -- next to a new stable resident no old one is left
    have hold {j : CacheKey N} {d : EntryState N} (hrole : plan.role = "stable")
        (hj : p.entries.get? j = some d) (hd : d.role = "stable") (hkey : j ≠ plan.key) :
        j ∈ evictedKeys plan.evictions :=
      hrotates hacc hrole j (h.represents.mem_keysForRole_iff.mpr ⟨d, hj, hd⟩) hkey
    intro j k d e hj hd hk he
    rw [commit_get? p hacc] at hj hk
    split_ifs at hj hk with hjkey hkkey hkevicted hjevicted hkkey hkevicted
    · rw [hjkey, hkkey]
    · obtain rfl := Option.some.inj hj
      exact absurd (hold hd hk he hkkey) hkevicted
    · obtain rfl := Option.some.inj hk
      exact absurd (hold he hj hd hjkey) hjevicted
    · exact h.unique hj hd hk he

theorem commitTrim (h : p.StableLane) (plan : TrimPlan N) : (p.commitTrim plan).StableLane := by
  refine ⟨commitTrim_represents h.represents plan, ?_⟩
  intro j k d e hj hd hk he
  rw [commitTrim_get?] at hj hk
  split_ifs at hj hk
  exact h.unique hj hd hk he

theorem observeHit (h : p.StableLane) (key : CacheKey N) : (p.observeHit key).2.StableLane := by
  refine ⟨observeHit_represents h.represents key, ?_⟩
  have hold {j : CacheKey N} {d : EntryState N} (hj : (p.observeHit key).2.entries.get? j = some d) :
      ∃ d₀, p.entries.get? j = some d₀ ∧ d.role = d₀.role := by
    rw [observeHit_get?, Option.map_eq_some_iff] at hj
    obtain ⟨d₀, hd₀, rfl⟩ := hj
    exact ⟨d₀, hd₀, by split_ifs <;> rfl⟩
  intro j k d e hj hd hk he
  obtain ⟨d₀, hd₀, hdrole⟩ := hold hj
  obtain ⟨e₀, he₀, herole⟩ := hold hk
  exact h.unique hd₀ (hdrole ▸ hd) he₀ (herole ▸ he)

/-- The head of the stable bucket is the one stable resident. -/
theorem head_eq_some_iff (h : p.StableLane) {k : CacheKey N} :
    (p.keysForRole "stable").head? = some k ↔
      ∃ e, p.entries.get? k = some e ∧ e.role = "stable" := by
  rw [← h.represents.mem_keysForRole_iff]
  constructor
  · exact List.mem_of_head?
  · intro hk
    cases hlane : p.keysForRole "stable" with
    | nil => simp [hlane] at hk
    | cons j rest =>
      obtain ⟨d, hd, hdrole⟩ := h.represents.resident
        (show j ∈ p.keysForRole "stable" by rw [hlane]; exact List.mem_cons_self)
      obtain ⟨e, he, herole⟩ := h.represents.resident hk
      rw [List.head?_cons, h.unique hd hdrole he herole]

end StableLane

/-! ## The incumbent -/

/-- The stable resident and its entry. -/
def Incumbent (p : WorkingSetPolicy N) (k : CacheKey N) (e : EntryState N) : Prop :=
  p.entries.get? k = some e ∧ e.role = "stable"

/-- The three fields of the probation. -/
def probation (p : WorkingSetPolicy N) : Option (CacheKey N) × ℕ × ℕ :=
  (p.stableCandidateKey, p.stableCandidateCount, p.stableCandidateBaseHits)

theorem candidateKey_of_probation {N : Type} {p p' : WorkingSetPolicy N}
    (h : p'.probation = p.probation) :
    p'.stableCandidateKey = p.stableCandidateKey :=
  congrArg Prod.fst h

theorem baseHits_of_probation {N : Type} {p p' : WorkingSetPolicy N}
    (h : p'.probation = p.probation) :
    p'.stableCandidateBaseHits = p.stableCandidateBaseHits :=
  congrArg (fun fields => fields.2.2) h

theorem StableLane.incumbent_unique (h : p.StableLane) {j k : CacheKey N} {d e : EntryState N}
    (hj : p.Incumbent j d) (hk : p.Incumbent k e) : j = k ∧ d = e := by
  obtain rfl := h.unique hj.1 hj.2 hk.1 hk.2
  exact ⟨rfl, Option.some.inj (hj.1.symm.trans hk.1)⟩

/-- Planning against an incumbent other than the candidate. -/
theorem StableLane.planStableCandidate_of_incumbent (h : p.StableLane) {current : CacheKey N}
    {e : EntryState N} (hcurrent : p.Incumbent current e) {key : CacheKey N} (hne : current ≠ key)
    (nbytes : ℤ) :
    planStableCandidate key nbytes p =
      if p.config.maxSequences ≤ 0 ∨ p.config.maxBytes ≤ 0 ∨ nbytes > p.config.maxBytes then
        (.ok ⟨false, key, "stable", nbytes, [], .oversizedOrDisabled⟩, p)
      else if e.hits = 0 ∧ key.tokens.length > current.tokens.length then
        (.ok (p.planStable key nbytes .stableColdLarger), p)
      else if (p.advanceProbation key e).stableCandidateCount ≥ 2 then
        (.ok ((p.advanceProbation key e).planStable key nbytes .stableRepeatedMiss),
          p.advanceProbation key e)
      else
        (.ok ⟨false, key, "stable", nbytes, [], .stableProbation⟩,
          { p.advanceProbation key e with
            stableCandidateRejections :=
              (p.advanceProbation key e).stableCandidateRejections + 1 }) := by
  obtain ⟨rest, hlane⟩ := List.head?_eq_some_iff.mp (h.head_eq_some_iff.mpr ⟨e, hcurrent⟩)
  unfold planStableCandidate
  simp only [hlane, hcurrent.1, if_neg hne]

/-- Planning a stable candidate advances its probation against the incumbent, or leaves
the probation as it is. -/
theorem StableLane.planStableCandidate_probation (h : p.StableLane) (key : CacheKey N)
    (nbytes : ℤ) :
    (planStableCandidate key nbytes p).2.probation = p.probation ∨
      ∃ current e, p.Incumbent current e ∧ current ≠ key ∧
        (planStableCandidate key nbytes p).2.probation = (p.advanceProbation key e).probation := by
  by_cases hother : ∃ current e, p.Incumbent current e ∧ current ≠ key
  · obtain ⟨current, e, hcurrent, hne⟩ := hother
    rw [h.planStableCandidate_of_incumbent hcurrent hne]
    split_ifs
    · exact Or.inl rfl
    · exact Or.inl rfl
    · exact Or.inr ⟨current, e, hcurrent, hne, rfl⟩
    · exact Or.inr ⟨current, e, hcurrent, hne, rfl⟩
  · left
    unfold planStableCandidate
    split_ifs
    · rfl
    cases hlane : p.keysForRole "stable" with
    | nil => rfl
    | cons head rest =>
      obtain ⟨e, he⟩ := h.head_eq_some_iff.mp (by rw [hlane, List.head?_cons])
      have hself : head = key := by
        by_contra hne
        exact hother ⟨head, e, he, hne⟩
      simp only [he.1, if_pos hself]

/-- The probation passes a candidate only when it was on probation before and the
incumbent has not been hit since. -/
theorem advanceProbation_passes {key : CacheKey N} {e : EntryState N}
    (h : (p.advanceProbation key e).stableCandidateCount ≥ 2) :
    p.stableCandidateKey = some key ∧ e.hits ≤ p.stableCandidateBaseHits := by
  unfold advanceProbation at h
  split_ifs at h with hkey hhits
  · simp at h
  · exact ⟨hkey, not_lt.mp hhits⟩
  · simp at h

/-- After it advanced, the probation is the candidate's, and its base is the incumbent's
hits, or the old base when the incumbent has not been hit since. -/
theorem advanceProbation_probation (p : WorkingSetPolicy N) (key : CacheKey N) (e : EntryState N) :
    (p.advanceProbation key e).stableCandidateKey = some key ∧
      ((p.advanceProbation key e).stableCandidateBaseHits = e.hits ∨
        p.stableCandidateKey = some key ∧ e.hits ≤ p.stableCandidateBaseHits ∧
          (p.advanceProbation key e).stableCandidateBaseHits = p.stableCandidateBaseHits) := by
  unfold advanceProbation
  split_ifs with hkey hhits
  · exact ⟨hkey, Or.inl rfl⟩
  · exact ⟨hkey, Or.inr ⟨hkey, not_lt.mp hhits, rfl⟩⟩
  · exact ⟨rfl, Or.inl rfl⟩

@[simp] theorem removeEntry_probation (p : WorkingSetPolicy N) (k : CacheKey N) :
    (p.removeEntry k).2.probation = p.probation := by
  unfold removeEntry
  split <;> rfl

theorem commitEviction_probation (p : WorkingSetPolicy N) (e : Eviction N) :
    (p.commitEviction e).probation = p.probation := by
  rw [← removeEntry_probation p e.key]
  unfold commitEviction
  rcases p.removeEntry e.key with ⟨_ | removed, q⟩
  · rfl
  · cases e.reason <;> dsimp only
    case capacity => split <;> rfl
    all_goals rfl

theorem commitTrimEviction_probation (p : WorkingSetPolicy N) (e : Eviction N) :
    (p.commitTrimEviction e).probation = p.probation := by
  rw [← removeEntry_probation p e.key]
  unfold commitTrimEviction
  rcases p.removeEntry e.key with ⟨_ | removed, q⟩
  · rfl
  · dsimp only
    split <;> rfl

theorem foldl_probation {N : Type} {remove : WorkingSetPolicy N → Eviction N → WorkingSetPolicy N}
    (hremove : ∀ p e, (remove p e).probation = p.probation) (evictions : List (Eviction N))
    (p : WorkingSetPolicy N) : (evictions.foldl remove p).probation = p.probation := by
  induction evictions generalizing p with
  | nil => rfl
  | cons e evictions ih => rw [List.foldl_cons, ih, hremove]

theorem commitTrim_probation (p : WorkingSetPolicy N) (plan : TrimPlan N) :
    (p.commitTrim plan).probation = p.probation := foldl_probation commitTrimEviction_probation _ _

theorem observeHit_probation (p : WorkingSetPolicy N) (key : CacheKey N) :
    (p.observeHit key).2.probation = p.probation := by
  unfold observeHit
  split <;> rfl

/-- Only the commit of a stable candidate touches the probation, and it ends it. -/
theorem commit_probation (p : WorkingSetPolicy N) {plan : AdmissionPlan N}
    (hacc : plan.accepted = true) :
    (p.commit plan).probation =
      if plan.role = "stable" ∧ plan.reason.isStable = true then (none, 0, 0) else p.probation := by
  have hcleared : (((plan.evictions.foldl commitEviction p).removeEntry plan.key).2.insertEntry
      plan).probation = p.probation := by
    have hevicted := foldl_probation commitEviction_probation plan.evictions p
    rw [← removeEntry_probation _ plan.key] at hevicted
    exact hevicted
  rw [← hcleared, commit, if_pos hacc]
  unfold commitStable
  split_ifs <;> rfl

/-- The incumbent after an admission is the admitted key under the stable role, or the old
one. -/
theorem commit_incumbent {plan : AdmissionPlan N} (hacc : plan.accepted = true)
    (h : p.Represents) (hrotates : p.Rotates plan) {k : CacheKey N} {e : EntryState N}
    (hk : (p.commit plan).Incumbent k e) :
    plan.role = "stable" ∧ k = plan.key ∧ e.hits = 0 ∨
      plan.role ≠ "stable" ∧ p.Incumbent k e := by
  obtain ⟨he, hrole⟩ := hk
  rw [commit_get? p hacc] at he
  split_ifs at he with hkey hevicted
  · obtain rfl := Option.some.inj he
    exact Or.inl ⟨hrole, hkey, rfl⟩
  · refine Or.inr ⟨fun hstable => hevicted ?_, he, hrole⟩
    exact hrotates hacc hstable k (h.mem_keysForRole_iff.mpr ⟨e, he, hrole⟩) hkey

theorem commitTrim_incumbent {plan : TrimPlan N} {k : CacheKey N} {e : EntryState N}
    (hk : (p.commitTrim plan).Incumbent k e) : p.Incumbent k e := by
  obtain ⟨he, hrole⟩ := hk
  rw [commitTrim_get?] at he
  split_ifs at he
  exact ⟨he, hrole⟩

theorem observeHit_incumbent {key k : CacheKey N} {e : EntryState N}
    (hk : (p.observeHit key).2.Incumbent k e) :
    ∃ e₀, p.Incumbent k e₀ ∧ e.hits = if k = key then e₀.hits + 1 else e₀.hits := by
  obtain ⟨he, hrole⟩ := hk
  rw [observeHit_get?, Option.map_eq_some_iff] at he
  obtain ⟨e₀, he₀, rfl⟩ := he
  refine ⟨e₀, ⟨he₀, by split_ifs at hrole <;> exact hrole⟩, by split_ifs <;> rfl⟩

end WorkingSetPolicy

end StateBraid.Policy
