import StateBraid.Policy.Limits

/-!
# The representation of the resident set

The entry table, the role buckets and the byte total describe one set of residents.
`Represents` states their agreement. Every operation keeps it, and under it a plan
evicts residents only.
-/

namespace StateBraid.Policy
open Library

variable {N : Type} [DecidableEq N]

namespace WorkingSetPolicy

/-- Table, buckets and total agree: the total is the sum of the sizes, every entry is
stored under its own key with the pin of its role, and each bucket lists exactly the
residents of its role. -/
structure Represents (p : WorkingSetPolicy N) : Prop where
  total : p.nbytes = p.residentBytes
  key : ∀ {k e}, p.entries.get? k = some e → e.key = k
  pinned : ∀ {k e}, p.entries.get? k = some e → e.pinned = decide (e.role ∈ p.config.pinRoles)
  bucketed : ∀ {k e}, p.entries.get? k = some e → k ∈ p.keysForRole e.role
  resident : ∀ {role k}, k ∈ p.keysForRole role → ∃ e, p.entries.get? k = some e ∧ e.role = role

theorem new_represents (config : PolicyConfig) : (new config : WorkingSetPolicy N).Represents where
  total := by simp [new, residentBytes]
  key h := by simp [new] at h
  pinned h := by simp [new] at h
  bucketed h := by simp [new] at h
  resident h := by simp [new, keysForRole] at h

/-- The invariant looks at four fields only. -/
theorem Represents.congr {p q : WorkingSetPolicy N} (h : p.Represents)
    (hsame : SameResidents p q) : q.Represents := by
  have hkeys (role : Role) : q.keysForRole role = p.keysForRole role := by
    rw [keysForRole, hsame.buckets, keysForRole]
  refine ⟨?_, ?_, ?_, ?_, ?_⟩
  · rw [hsame.nbytes, residentBytes, hsame.entries]
    exact h.total
  · rw [hsame.entries]
    exact h.key
  · rw [hsame.entries, hsame.config]
    exact h.pinned
  · simp only [hkeys, hsame.entries]
    exact h.bucketed
  · simp only [hkeys, hsame.entries]
    exact h.resident

/-! ## Removing a resident -/

theorem removeEntry_nbytes {p : WorkingSetPolicy N} {k : CacheKey N} {e : EntryState N}
    (h : p.entries.get? k = some e) : (p.removeEntry k).2.nbytes = p.nbytes - e.nbytes := by
  unfold removeEntry
  rw [h]

/-- A removed key disappears from every bucket; it could only be in its role's. -/
theorem removeEntry_keysForRole {p : WorkingSetPolicy N} (h : p.Represents) (k : CacheKey N)
    (role : Role) :
    (p.removeEntry k).2.keysForRole role = (p.keysForRole role).filter (· ≠ k) := by
  have hself (hother : ∀ e, p.entries.get? k = some e → e.role ≠ role) :
      (p.keysForRole role).filter (· ≠ k) = p.keysForRole role := by
    refine List.filter_eq_self.mpr fun j hj => decide_eq_true fun hjk => ?_
    obtain ⟨e, hentry, hrole⟩ := h.resident hj
    exact hother e (hjk ▸ hentry) hrole
  unfold removeEntry
  split
  · rename_i hnone
    exact (hself (by simp [hnone])).symm
  · rename_i e hentry
    cases hbucket : p.buckets.get? e.role with
    | none =>
      have := h.bucketed hentry
      simp [keysForRole, hbucket] at this
    | some b =>
      by_cases hrole : e.role = role
      · subst hrole
        simp [keysForRole, hbucket, Dict.keys_erase]
      · rw [hself (by simpa [hentry] using hrole)]
        simp [keysForRole, Ne.symm hrole]

theorem removeEntry_represents {p : WorkingSetPolicy N} (h : p.Represents) (k : CacheKey N) :
    (p.removeEntry k).2.Represents := by
  have hget (j : CacheKey N) : (p.removeEntry k).2.entries.get? j =
      if j = k then none else p.entries.get? j := by rw [removeEntry_entries, Dict.get?_erase]
  have hkeep {j : CacheKey N} {e : EntryState N}
      (hj : (p.removeEntry k).2.entries.get? j = some e) : j ≠ k ∧ p.entries.get? j = some e := by
    rw [hget] at hj
    split_ifs at hj with hjk
    exact ⟨hjk, hj⟩
  refine ⟨?_, fun hj => h.key (hkeep hj).2, fun hj => ?_, fun hj => ?_, fun hj => ?_⟩
  · rw [residentBytes, removeEntry_entries]
    cases hentry : p.entries.get? k with
    | none =>
      rw [Dict.erase_eq_self (Dict.get?_eq_none_iff.mp hentry), removeEntry, hentry]
      exact h.total
    | some e =>
      rw [removeEntry_nbytes hentry, Dict.sum_erase _ hentry, h.total, residentBytes]
  · rw [removeEntry_config]
    exact h.pinned (hkeep hj).2
  · rw [removeEntry_keysForRole h, List.mem_filter]
    exact ⟨h.bucketed (hkeep hj).2, decide_eq_true (hkeep hj).1⟩
  · rename_i role j
    rw [removeEntry_keysForRole h, List.mem_filter] at hj
    obtain ⟨e, hentry, hrole⟩ := h.resident hj.1
    refine ⟨e, ?_, hrole⟩
    rw [hget, if_neg (of_decide_eq_true hj.2), hentry]

theorem removeEntry_get?_self (p : WorkingSetPolicy N) (k : CacheKey N) :
    (p.removeEntry k).2.entries.get? k = none := by
  simp [removeEntry_entries]

/-- A counted removal has the residents of the plain one. -/
theorem commitEviction_sameResidents (p : WorkingSetPolicy N) (e : Eviction N) :
    SameResidents (p.removeEntry e.key).2 (p.commitEviction e) := by
  unfold commitEviction
  rcases p.removeEntry e.key with ⟨_ | removed, q⟩
  · exact .refl q
  · cases e.reason <;> dsimp only
    case capacity =>
      split
      · exact ⟨rfl, rfl, rfl, rfl⟩
      · exact .refl q
    all_goals exact ⟨rfl, rfl, rfl, rfl⟩

theorem commitTrimEviction_sameResidents (p : WorkingSetPolicy N) (e : Eviction N) :
    SameResidents (p.removeEntry e.key).2 (p.commitTrimEviction e) := by
  unfold commitTrimEviction
  rcases p.removeEntry e.key with ⟨_ | removed, q⟩
  · exact .refl q
  · dsimp only
    split
    · exact ⟨rfl, rfl, rfl, rfl⟩
    · exact .refl q

theorem foldl_represents {remove : WorkingSetPolicy N → Eviction N → WorkingSetPolicy N}
    (hremove : ∀ p e, SameResidents (p.removeEntry e.key).2 (remove p e))
    (evictions : List (Eviction N)) {p : WorkingSetPolicy N} (h : p.Represents) :
    (evictions.foldl remove p).Represents := by
  induction evictions generalizing p with
  | nil => exact h
  | cons e evictions ih => exact ih ((removeEntry_represents h e.key).congr (hremove p e))

theorem commitTrim_represents {p : WorkingSetPolicy N} (h : p.Represents) (plan : TrimPlan N) :
    (p.commitTrim plan).Represents := foldl_represents commitTrimEviction_sameResidents _ h

/-! ## Crediting a hit -/

theorem observeHit_config (p : WorkingSetPolicy N) (key : CacheKey N) :
    (p.observeHit key).2.config = p.config := by
  unfold observeHit
  split <;> rfl

/-- A hit changes one counter of one entry. -/
theorem observeHit_get? (p : WorkingSetPolicy N) (key k : CacheKey N) :
    (p.observeHit key).2.entries.get? k = (p.entries.get? k).map (fun e =>
      if k = key then { e with hits := e.hits + 1 } else e) := by
  unfold observeHit
  split
  · rename_i hnone
    by_cases hk : k = key
    · rw [hk, hnone]
      rfl
    · simp [hk]
  · rename_i entry hentry
    rw [Dict.get?_insert]
    by_cases hk : k = key
    · rw [if_pos hk, hk, hentry]
      simp
    · simp [hk]

theorem observeHit_represents {p : WorkingSetPolicy N} (h : p.Represents) (key : CacheKey N) :
    (p.observeHit key).2.Represents := by
  have hconfig := observeHit_config p key
  have hbuckets (role : Role) : (p.observeHit key).2.keysForRole role = p.keysForRole role := by
    unfold observeHit
    split <;> rfl
  have hold {k : CacheKey N} {e : EntryState N}
      (hk : (p.observeHit key).2.entries.get? k = some e) :
      ∃ e₀, p.entries.get? k = some e₀ ∧ e.key = e₀.key ∧ e.role = e₀.role ∧
        e.pinned = e₀.pinned := by
    rw [observeHit_get?, Option.map_eq_some_iff] at hk
    obtain ⟨e₀, he₀, rfl⟩ := hk
    refine ⟨e₀, he₀, ?_⟩
    split_ifs <;> exact ⟨rfl, rfl, rfl⟩
  refine ⟨?_, fun hk => ?_, fun hk => ?_, fun hk => ?_, fun hk => ?_⟩
  · unfold observeHit
    split
    · exact h.total
    · rename_i entry hentry
      have hsum := Dict.sum_insert (fun kv => kv.2.nbytes) { entry with hits := entry.hits + 1 } hentry
      simp only [residentBytes]
      rw [hsum]
      simp [h.total, residentBytes]
  · obtain ⟨e₀, he₀, hkey, -, -⟩ := hold hk
    rw [hkey, h.key he₀]
  · obtain ⟨e₀, he₀, -, hrole, hpinned⟩ := hold hk
    rw [hpinned, h.pinned he₀, hrole, hconfig]
  · obtain ⟨e₀, he₀, -, hrole, -⟩ := hold hk
    rw [hbuckets, hrole]
    exact h.bucketed he₀
  · rename_i role k
    rw [hbuckets] at hk
    obtain ⟨e, he, hrole⟩ := h.resident hk
    refine ⟨if k = key then { e with hits := e.hits + 1 } else e, ?_, ?_⟩
    · rw [observeHit_get?, he]
      rfl
    · split_ifs <;> exact hrole

/-! ## Admitting an entry -/

theorem insertEntry_keysForRole (p : WorkingSetPolicy N) (plan : AdmissionPlan N) (role : Role)
    (k : CacheKey N) :
    k ∈ (p.insertEntry plan).keysForRole role ↔
      role = plan.role ∧ k = plan.key ∨ k ∈ p.keysForRole role := by
  by_cases hrole : role = plan.role
  · subst hrole
    simp [insertEntry, keysForRole, bucket, Dict.mem_keys_insert]
  · simp [insertEntry, keysForRole, hrole]

/-- Inserting a key that is not resident. -/
theorem insertEntry_represents {p : WorkingSetPolicy N} (h : p.Represents)
    {plan : AdmissionPlan N} (hnew : p.entries.get? plan.key = none) :
    (p.insertEntry plan).Represents := by
  have hget (j : CacheKey N) : (p.insertEntry plan).entries.get? j =
      if j = plan.key then some (p.plannedEntry plan) else p.entries.get? j := by
    rw [insertEntry, plannedEntry, Dict.get?_insert]
  have hcases {j : CacheKey N} {e : EntryState N}
      (hj : (p.insertEntry plan).entries.get? j = some e) :
      j = plan.key ∧ e = p.plannedEntry plan ∨ p.entries.get? j = some e := by
    rw [hget] at hj
    split_ifs at hj with hjk
    · exact Or.inl ⟨hjk, (Option.some.inj hj).symm⟩
    · exact Or.inr hj
  refine ⟨?_, fun hj => ?_, fun hj => ?_, fun hj => ?_, fun hj => ?_⟩
  · rw [residentBytes, insertEntry, Dict.items_insert_of_not_mem _ (Dict.get?_eq_none_iff.mp hnew)]
    simp [h.total, residentBytes]
  · rcases hcases hj with ⟨rfl, rfl⟩ | hold
    · rfl
    · exact h.key hold
  · rcases hcases hj with ⟨rfl, rfl⟩ | hold
    · rfl
    · exact h.pinned hold
  · rw [insertEntry_keysForRole]
    rcases hcases hj with ⟨rfl, rfl⟩ | hold
    · exact Or.inl ⟨rfl, rfl⟩
    · exact Or.inr (h.bucketed hold)
  · rename_i role j
    rcases (insertEntry_keysForRole p plan role j).mp hj with ⟨rfl, rfl⟩ | hold
    · exact ⟨_, by rw [hget, if_pos rfl], rfl⟩
    · obtain ⟨e, hentry, hrole⟩ := h.resident hold
      refine ⟨e, ?_, hrole⟩
      rw [hget, if_neg, hentry]
      rintro rfl
      rw [hnew] at hentry
      cases hentry

theorem commitStable_sameResidents {N : Type} (p : WorkingSetPolicy N) (plan : AdmissionPlan N) :
    SameResidents p (p.commitStable plan) := by
  unfold commitStable
  split_ifs
  · exact ⟨rfl, rfl, rfl, rfl⟩
  · exact ⟨rfl, rfl, rfl, rfl⟩
  · exact .refl p

theorem commit_represents {p : WorkingSetPolicy N} (h : p.Represents) (plan : AdmissionPlan N) :
    (p.commit plan).Represents := by
  unfold commit
  split
  · have hevicted := foldl_represents commitEviction_sameResidents plan.evictions h
    have hcleared := removeEntry_represents hevicted plan.key
    exact (insertEntry_represents hcleared (removeEntry_get?_self _ _)).congr
      (commitStable_sameResidents _ plan)
  · exact h

/-! ## Plans evict residents -/

theorem addEvict_forall {P : CacheKey N → Prop} {key : CacheKey N} {evictions : List (Eviction N)}
    {candidate : Option (CacheKey N)} {reason : EvictionReason}
    (hold : ∀ e ∈ evictions, P e.key) (hnew : ∀ c ∈ candidate, P c) :
    ∀ e ∈ addEvict key evictions candidate reason, P e.key := by
  unfold addEvict
  split
  · exact hold
  · rename_i c
    split
    · intro e he
      rcases List.mem_append.mp he with he | he
      · exact hold e he
      · rw [List.mem_singleton.mp he]
        exact hnew c rfl
    · exact hold

theorem mem_orderedKeys {N : Type} {p : WorkingSetPolicy N} {k : CacheKey N}
    (h : k ∈ p.orderedKeys) :
    ∃ role, k ∈ p.keysForRole role := by
  obtain ⟨role, -, hk⟩ := List.mem_flatMap.mp h
  exact ⟨role, hk⟩

/-- Only stable residents are rotated. -/
theorem rotateStable_stable {p : WorkingSetPolicy N} (key : CacheKey N) (role : Role) :
    ∀ e ∈ p.rotateStable key role, e.key ∈ p.keysForRole "stable" := by
  unfold WorkingSetPolicy.rotateStable
  split
  · suffices hfold : ∀ (keys : List (CacheKey N)) (evictions : List (Eviction N)),
        (∀ k ∈ keys, k ∈ p.keysForRole "stable") →
        (∀ e ∈ evictions, e.key ∈ p.keysForRole "stable") →
        ∀ e ∈ keys.foldl (fun ev k => addEvict key ev (some k) .stableRotate) evictions,
          e.key ∈ p.keysForRole "stable" by
      exact hfold _ [] (fun _ hk => hk) (by simp)
    intro keys
    induction keys with
    | nil => exact fun _ _ hev => hev
    | cons k keys ih =>
      intro evictions hkeys hev
      refine ih _ (fun j hj => hkeys j (List.mem_cons_of_mem _ hj)) (addEvict_forall hev ?_)
      simpa using hkeys k List.mem_cons_self
  · simp

namespace Represents

variable {p : WorkingSetPolicy N}

theorem mem_keys (h : p.Represents) {role : Role} {k : CacheKey N} (hk : k ∈ p.keysForRole role) :
    k ∈ p.entries.keys := by
  obtain ⟨e, he, -⟩ := h.resident hk
  exact Dict.mem_keys_of_get? he

theorem nextVictim (h : p.Represents) {excluding : Finset (CacheKey N)} :
    ∀ k ∈ p.nextVictim excluding, k ∈ p.entries.keys := by
  intro k hk
  obtain ⟨role, hrole⟩ := mem_orderedKeys (List.mem_of_find?_eq_some hk)
  exact h.mem_keys hrole

theorem oldestPin (h : p.Represents) {excluding : Finset (CacheKey N)} :
    ∀ k ∈ p.oldestPin excluding, k ∈ p.entries.keys := by
  intro k hk
  obtain ⟨role, -, hrole⟩ := List.mem_flatMap.mp (List.mem_of_find?_eq_some hk)
  exact h.mem_keys hrole

theorem rotateStable (h : p.Represents) (key : CacheKey N) (role : Role) :
    ∀ e ∈ p.rotateStable key role, e.key ∈ p.entries.keys := fun e he =>
  h.mem_keys (rotateStable_stable key role e he)

theorem compactLineage (key : CacheKey N) (role : Role) (predecessor : Option (CacheKey N))
    {evictions : List (Eviction N)} (hev : ∀ e ∈ evictions, e.key ∈ p.entries.keys) :
    ∀ e ∈ p.compactLineage key role predecessor evictions, e.key ∈ p.entries.keys := by
  unfold WorkingSetPolicy.compactLineage
  split
  · exact hev
  · rename_i pred
    split_ifs with hlineage
    · refine addEvict_forall hev fun c hc => ?_
      obtain rfl := Option.some.inj hc
      have hresident := hlineage.2
      unfold isLineage at hresident
      split at hresident
      · cases hresident
      · exact Dict.mem_keys_of_get? (by assumption)
    · exact hev

theorem enforcePinQuota (h : p.Represents) (key : CacheKey N) (role : Role)
    {evictions : List (Eviction N)} (hev : ∀ e ∈ evictions, e.key ∈ p.entries.keys) :
    ∀ e ∈ p.enforcePinQuota key role evictions, e.key ∈ p.entries.keys := by
  unfold WorkingSetPolicy.enforcePinQuota
  dsimp only
  split_ifs
  · exact addEvict_forall hev h.oldestPin
  · exact addEvict_forall hev h.oldestPin
  · exact hev

theorem capacityLoop (h : p.Represents) (key : CacheKey N) (nbytes : ℤ)
    (guarded : Finset (CacheKey N)) (fuel : ℕ) :
    ∀ {evictions : List (Eviction N)}, (∀ e ∈ evictions, e.key ∈ p.entries.keys) →
      ∀ e ∈ (p.capacityLoop key nbytes guarded fuel evictions).1, e.key ∈ p.entries.keys := by
  induction fuel with
  | zero => exact fun hev => hev
  | succ fuel ih =>
    intro evictions hev
    unfold WorkingSetPolicy.capacityLoop
    dsimp only
    split
    · split
      · rename_i victim hvictim
        exact ih (addEvict_forall hev fun c hc => h.nextVictim c (by rwa [hvictim]))
      · split
        · rename_i victim hvictim
          exact ih (addEvict_forall hev fun c hc => h.nextVictim c (by rwa [hvictim]))
        · exact hev
    · exact hev

/-- Every eviction of an admission plan is a resident. -/
theorem planAdmission (h : p.Represents) (key : CacheKey N) (role : Role) (nbytes : ℤ)
    (predecessor : Option (CacheKey N)) :
    ∀ e ∈ (p.planAdmission key role nbytes predecessor).evictions, e.key ∈ p.entries.keys := by
  have hprior : ∀ e ∈ p.priorEvictions key role predecessor, e.key ∈ p.entries.keys :=
    h.enforcePinQuota key role
      (compactLineage key role predecessor (h.rotateStable key role))
  have hloop := h.capacityLoop key (max 0 nbytes)
    (p.protectedKeys key role (max 0 nbytes) (p.priorEvictions key role predecessor))
    p.orderedKeys.length hprior
  unfold WorkingSetPolicy.planAdmission
  dsimp only
  split_ifs
  · simp
  · simp
  · split <;> rename_i hresult <;> rwa [hresult] at hloop

/-- Every eviction of a stable candidate's plan is a resident of the state it leaves. -/
theorem planStableCandidate (h : p.Represents) {q : WorkingSetPolicy N} {key : CacheKey N}
    {nbytes : ℤ} {plan : AdmissionPlan N}
    (hplan : WorkingSetPolicy.planStableCandidate key nbytes p = (.ok plan, q)) :
    ∀ e ∈ plan.evictions, e.key ∈ q.entries.keys := by
  have hsame := p.planStableCandidate_sameResidents key nbytes
  have hout := p.planStableCandidate_outcome key nbytes
  rw [hplan] at hout hsame
  have hq := h.congr hsame
  cases hout with
  | disabled | probation => simp
  | empty | refresh | coldLarger | repeatedMiss =>
    exact hq.planAdmission key "stable" nbytes none

theorem trimLoop (h : p.Represents) (targetSequences targetBytes : ℕ)
    (guarded : Finset (CacheKey N)) (fuel : ℕ) :
    ∀ {evictions : List (Eviction N)}, (∀ e ∈ evictions, e.key ∈ p.entries.keys) →
      ∀ e ∈ p.trimLoop targetSequences targetBytes guarded fuel evictions,
        e.key ∈ p.entries.keys := by
  induction fuel with
  | zero => exact fun hev => hev
  | succ fuel ih =>
    intro evictions hev
    have hextend {excluding : Finset (CacheKey N)} {victim : CacheKey N}
        (hvictim : p.nextVictim excluding = some victim) :
        ∀ e ∈ evictions ++ [⟨victim, .trim⟩], e.key ∈ p.entries.keys := by
      intro e he
      rcases List.mem_append.mp he with he | he
      · exact hev e he
      · rw [List.mem_singleton.mp he]
        exact h.nextVictim victim hvictim
    unfold WorkingSetPolicy.trimLoop
    dsimp only
    split
    · split
      · exact ih (hextend (by assumption))
      · split
        · exact ih (hextend (by assumption))
        · exact hev
    · exact hev

/-- Every victim of a trim is a resident. -/
theorem planTrim (h : p.Represents) {nSequences nBytes : Option ℤ} {plan : TrimPlan N}
    (hplan : p.planTrim nSequences nBytes = .ok plan) :
    ∀ e ∈ plan.evictions, e.key ∈ p.entries.keys := by
  unfold WorkingSetPolicy.planTrim at hplan
  dsimp only at hplan
  split at hplan
  · cases hplan
  · cases hplan
    exact h.trimLoop _ _ _ _ (by simp)

end Represents

/-! ## Plans -/

/-- What committing a plan relies on: it is for this key and size, it evicts residents,
and it fits the limits. -/
structure Plans (p : WorkingSetPolicy N) (key : CacheKey N) (nbytes : ℤ) (plan : AdmissionPlan N) :
    Prop where
  key : plan.key = key
  nbytes : plan.accepted = true → plan.nbytes = max 0 nbytes
  resident : ∀ e ∈ plan.evictions, e.key ∈ p.entries.keys
  fits : FitsLimits p plan

theorem Represents.plans_admission {p : WorkingSetPolicy N} (h : p.Represents) (key : CacheKey N)
    (role : Role) (nbytes : ℤ) (predecessor : Option (CacheKey N)) :
    p.Plans key nbytes (p.planAdmission key role nbytes predecessor) where
  key := (p.planAdmission_spec key role nbytes predecessor).1
  nbytes _ := (p.planAdmission_spec key role nbytes predecessor).2.2.1
  resident := h.planAdmission key role nbytes predecessor
  fits := p.planAdmission_fits key role nbytes predecessor

theorem Represents.plans_stable {p q : WorkingSetPolicy N} (h : p.Represents) {key : CacheKey N}
    {nbytes : ℤ} {plan : AdmissionPlan N}
    (hplan : WorkingSetPolicy.planStableCandidate key nbytes p = (.ok plan, q)) :
    q.Plans key nbytes plan where
  key := (planStableCandidate_plan hplan).1
  nbytes := by
    have hout := p.planStableCandidate_outcome key nbytes
    rw [hplan] at hout
    intro hacc
    cases hout with
    | disabled | probation => cases hacc
    | empty | refresh | coldLarger | repeatedMiss =>
      exact (planAdmission_spec _ key "stable" nbytes none).2.2.1
  resident := h.planStableCandidate hplan
  fits := planStableCandidate_fits hplan

end WorkingSetPolicy

end StateBraid.Policy
