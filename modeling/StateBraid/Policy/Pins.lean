import StateBraid.Policy.StableLane

/-!
# The pin quota

Pins are counted by the flag of the entries, but a pin to evict is looked for by the
rank of its role, and a pinned role that has a rank of its own is not found. Where the
search finds a pin, one eviction an admission keeps the count within the limit.
-/

namespace StateBraid.Policy
open Library

variable {N : Type} [DecidableEq N]

/-- The roles with a rank of their own stay below the rank that marks a pin. -/
theorem lookup_lt_pinRankMin {role : Role} {rank : ℕ} (h : roleRanks.lookup role = some rank) :
    rank < pinRankMin := by
  obtain ⟨before, after, heq, -⟩ := List.lookup_eq_some_iff.mp h
  have hmem : (role, rank) ∈ roleRanks := by
    rw [heq]
    exact List.mem_append_right _ List.mem_cons_self
  have hall : ∀ kv ∈ roleRanks, kv.2 < pinRankMin := by decide
  exact hall _ hmem

namespace WorkingSetPolicy

variable {p : WorkingSetPolicy N}

/-- The residents that carry the pin flag. -/
def pinnedKeys (p : WorkingSetPolicy N) : Finset (CacheKey N) :=
  ((p.entries.items.filter (fun kv => kv.2.pinned)).map Prod.fst).toFinset

theorem mem_pinnedKeys {k : CacheKey N} :
    k ∈ p.pinnedKeys ↔ ∃ e, p.entries.get? k = some e ∧ e.pinned = true := by
  simp only [pinnedKeys, List.mem_toFinset, List.mem_map, List.mem_filter, Prod.exists,
    exists_and_right, exists_eq_right, Dict.get?_eq_some_iff]

theorem card_pinnedKeys (p : WorkingSetPolicy N) : p.pinnedKeys.card = p.pinCount := by
  have hnodup : ((p.entries.items.filter (fun kv => kv.2.pinned)).map Prod.fst).Nodup :=
    p.entries.keys_nodup.sublist (List.filter_sublist.map Prod.fst)
  rw [pinnedKeys, List.toFinset_card_of_nodup hnodup, List.length_map, pinCount, Dict.values,
    List.countP_map, List.countP_eq_length_filter]
  rfl

theorem pinCount_le_nSequences {N : Type} (p : WorkingSetPolicy N) : p.pinCount ≤ p.nSequences := by
  refine List.countP_le_length.trans (le_of_eq ?_)
  simp [nSequences, Dict.size, Dict.values]

theorem pinCount_congr {N : Type} {p q : WorkingSetPolicy N} (h : q.entries = p.entries) :
    q.pinCount = p.pinCount := by
  rw [pinCount, h, pinCount]

/-! ## What a commit does to the count -/

theorem commitTrim_pinCount_le (p : WorkingSetPolicy N) (plan : TrimPlan N) :
    (p.commitTrim plan).pinCount ≤ p.pinCount := by
  rw [← card_pinnedKeys, ← card_pinnedKeys]
  refine Finset.card_le_card fun k hk => ?_
  obtain ⟨e, he, hpinned⟩ := mem_pinnedKeys.mp hk
  rw [commitTrim_get?] at he
  split_ifs at he
  exact mem_pinnedKeys.mpr ⟨e, he, hpinned⟩

theorem observeHit_pinCount (p : WorkingSetPolicy N) (key : CacheKey N) :
    (p.observeHit key).2.pinCount = p.pinCount := by
  rw [← card_pinnedKeys, ← card_pinnedKeys]
  congr 1
  ext k
  rw [mem_pinnedKeys, mem_pinnedKeys, observeHit_get?]
  constructor
  · rintro ⟨e, he, hpinned⟩
    obtain ⟨e₀, he₀, rfl⟩ := Option.map_eq_some_iff.mp he
    exact ⟨e₀, he₀, by split_ifs at hpinned <;> exact hpinned⟩
  · rintro ⟨e, he, hpinned⟩
    rw [he, Option.map_some]
    exact ⟨_, rfl, by split_ifs <;> exact hpinned⟩

/-- The pins after an admission: those kept, and the admitted key under a pinned role. -/
theorem pinnedKeys_commit {plan : AdmissionPlan N} (hacc : plan.accepted = true) {k : CacheKey N}
    (hk : k ∈ (p.commit plan).pinnedKeys) :
    k = plan.key ∧ plan.role ∈ p.config.pinRoles ∨
      k ≠ plan.key ∧ k ∈ p.pinnedKeys ∧ k ∉ evictedKeys plan.evictions := by
  obtain ⟨e, he, hpinned⟩ := mem_pinnedKeys.mp hk
  rw [commit_get? p hacc] at he
  split_ifs at he with hkey hevicted
  · obtain rfl := Option.some.inj he
    exact Or.inl ⟨hkey, of_decide_eq_true hpinned⟩
  · exact Or.inr ⟨hkey, mem_pinnedKeys.mpr ⟨e, he, hpinned⟩, hevicted⟩

/-- An admission under a pinned role of a key that was no pin, at the limit, evicts a pin. -/
def MakesRoom (p : WorkingSetPolicy N) (plan : AdmissionPlan N) : Prop :=
  plan.role ∈ p.config.pinRoles → plan.key ∉ p.pinnedKeys → p.config.pinLimit ≤ p.pinCount →
    ∃ k ∈ p.pinnedKeys, k ≠ plan.key ∧ k ∈ evictedKeys plan.evictions

theorem commit_pinCount_le {plan : AdmissionPlan N} (hacc : plan.accepted = true)
    (hroom : p.MakesRoom plan) (h : p.pinCount ≤ p.config.pinLimit) :
    (p.commit plan).pinCount ≤ p.config.pinLimit := by
  rw [← card_pinnedKeys] at h ⊢
  by_cases hrole : plan.role ∈ p.config.pinRoles ∧ plan.key ∉ p.pinnedKeys
  · by_cases hfull : p.config.pinLimit ≤ p.pinCount
    · -- the pin that makes room is gone, the admitted key is new
      obtain ⟨gone, hgone, -, hevicted⟩ := hroom hrole.1 hrole.2 hfull
      have hsub : (p.commit plan).pinnedKeys ⊆ insert plan.key (p.pinnedKeys.erase gone) := by
        intro k hk
        rcases pinnedKeys_commit hacc hk with ⟨rfl, -⟩ | ⟨-, hold, hkept⟩
        · exact Finset.mem_insert_self _ _
        · have hne : k ≠ gone := fun he => hkept (he ▸ hevicted)
          exact Finset.mem_insert_of_mem (Finset.mem_erase.mpr ⟨hne, hold⟩)
      calc (p.commit plan).pinnedKeys.card
          ≤ (insert plan.key (p.pinnedKeys.erase gone)).card := Finset.card_le_card hsub
        _ ≤ (p.pinnedKeys.erase gone).card + 1 := Finset.card_insert_le _ _
        _ = p.pinnedKeys.card := Finset.card_erase_add_one hgone
        _ ≤ p.config.pinLimit := h
    · have hsub : (p.commit plan).pinnedKeys ⊆ insert plan.key p.pinnedKeys := by
        intro k hk
        rcases pinnedKeys_commit hacc hk with ⟨rfl, -⟩ | ⟨-, hold, -⟩
        · exact Finset.mem_insert_self _ _
        · exact Finset.mem_insert_of_mem hold
      rw [← card_pinnedKeys] at hfull
      calc (p.commit plan).pinnedKeys.card
          ≤ (insert plan.key p.pinnedKeys).card := Finset.card_le_card hsub
        _ ≤ p.pinnedKeys.card + 1 := Finset.card_insert_le _ _
        _ ≤ p.config.pinLimit := by omega
  · refine le_trans (Finset.card_le_card fun k hk => ?_) h
    rcases pinnedKeys_commit hacc hk with ⟨rfl, hpinned⟩ | ⟨-, hold, -⟩
    · by_contra hnew
      exact hrole ⟨hpinned, hnew⟩
    · exact hold

/-! ## The pin that is found -/

/-- Only a pinned role without a rank of its own marks a pin. -/
theorem pinRankMin_le_rank {N : Type} {p : WorkingSetPolicy N} {role : Role} :
    pinRankMin ≤ p.rank role ↔ role ∈ p.config.pinRoles ∧ roleRanks.lookup role = none := by
  unfold rank
  cases hlookup : roleRanks.lookup role with
  | some own =>
    have hown := lookup_lt_pinRankMin hlookup
    simp [hown]
  | none =>
    by_cases hpinned : role ∈ p.config.pinRoles
    · simp [hpinned]
    · simp [hpinned, pinRankMin, unknownRoleRank]

theorem mem_sortByRank {N : Type} {p : WorkingSetPolicy N} {roles : List Role} {role : Role} :
    role ∈ p.sortByRank roles ↔ role ∈ roles := (List.perm_insertionSort _ roles).mem_iff

theorem mem_buckets_of_mem_keysForRole {N : Type} {p : WorkingSetPolicy N} {role : Role}
    {k : CacheKey N} (h : k ∈ p.keysForRole role) : role ∈ p.buckets.keys := by
  cases hbucket : p.buckets.get? role with
  | none => simp [keysForRole, hbucket] at h
  | some b => exact Dict.mem_keys_of_get? hbucket

/-- A pin under a role without a rank of its own is found, it or an older one. -/
theorem Represents.oldestPin_isSome (h : p.Represents) {excluding : Finset (CacheKey N)}
    {k : CacheKey N} {e : EntryState N} (he : p.entries.get? k = some e)
    (hpinned : e.pinned = true) (hrole : roleRanks.lookup e.role = none) (hk : k ∉ excluding) :
    ∃ found, p.oldestPin excluding = some found := by
  have hbucket := h.bucketed he
  have hmark : pinRankMin ≤ p.rank e.role :=
    pinRankMin_le_rank.mpr ⟨by simpa [h.pinned he] using hpinned, hrole⟩
  rw [← Option.isSome_iff_exists, WorkingSetPolicy.oldestPin, List.find?_isSome]
  refine ⟨k, List.mem_flatMap.mpr ⟨e.role, mem_sortByRank.mpr (List.mem_filter.mpr
    ⟨mem_buckets_of_mem_keysForRole hbucket, decide_eq_true hmark⟩), hbucket⟩, decide_eq_true hk⟩

/-- What is found is a pin. -/
theorem Represents.oldestPin_pinned (h : p.Represents) {excluding : Finset (CacheKey N)}
    {found : CacheKey N} (hfound : p.oldestPin excluding = some found) :
    found ∈ p.pinnedKeys := by
  obtain ⟨role, hrole, hmem⟩ := List.mem_flatMap.mp (List.mem_of_find?_eq_some hfound)
  have hmark := (List.mem_filter.mp (mem_sortByRank.mp hrole)).2
  obtain ⟨e, he, rfl⟩ := h.resident hmem
  refine mem_pinnedKeys.mpr ⟨e, he, ?_⟩
  rw [h.pinned he]
  exact decide_eq_true (pinRankMin_le_rank.mp (of_decide_eq_true hmark)).1

/-! ## Configurations whose quota holds -/

/-- The limit binds nothing (no reserve, no bytes, no pinned roles), or every pin can be
found and replaced: no pinned role but `stable` has a rank of its own, there is room for a
pin, and for two when a stable pin stands beside others. -/
def QuotaSound (config : PolicyConfig) : Prop :=
  config.transientReserve = 0 ∨ config.maxBytes = 0 ∨ config.pinRoles = ∅ ∨
    (∀ role ∈ config.pinRoles, role = "stable" ∨ roleRanks.lookup role = none) ∧
      1 ≤ config.pinLimit ∧
      ("stable" ∈ config.pinRoles → config.pinRoles = {"stable"} ∨ 2 ≤ config.pinLimit)

/-- Two pins or more: one of them is not stable. -/
theorem StableLane.exists_unstable_pin (h : p.StableLane) (htwo : 2 ≤ p.pinCount) :
    ∃ k e, p.entries.get? k = some e ∧ e.pinned = true ∧ e.role ≠ "stable" := by
  rw [← card_pinnedKeys] at htwo
  obtain ⟨j, hj, k, hk, hne⟩ := Finset.one_lt_card.mp htwo
  obtain ⟨d, hd, hdpinned⟩ := mem_pinnedKeys.mp hj
  obtain ⟨e, he, hepinned⟩ := mem_pinnedKeys.mp hk
  by_cases hrole : d.role = "stable"
  · exact ⟨k, e, he, hepinned, fun hrole' => hne (h.unique hd hrole he hrole')⟩
  · exact ⟨j, d, hd, hdpinned, hrole⟩

/-- Some pin is stable while a stable admission is planned, or is not stable. -/
theorem StableLane.exists_pin (h : p.StableLane) (hsound : QuotaSound p.config) {role : Role}
    (hrole : role ∈ p.config.pinRoles) (hreserve : p.config.transientReserve ≠ 0)
    (hbytes : p.config.maxBytes ≠ 0) (hfull : p.config.pinLimit ≤ p.pinCount) :
    ∃ k e, p.entries.get? k = some e ∧ e.pinned = true ∧
      (role = "stable" ∧ e.role = "stable" ∨
        e.role ≠ "stable" ∧ roleRanks.lookup e.role = none) ∧
      (role = "stable" ∨ roleRanks.lookup role = none) := by
  obtain ⟨hroles, hone, htwo⟩ := ((hsound.resolve_left hreserve).resolve_left hbytes).resolve_left
    (Finset.nonempty_iff_ne_empty.mp ⟨role, hrole⟩)
  have hpinnedRole {k : CacheKey N} {e : EntryState N} (he : p.entries.get? k = some e)
      (hpinned : e.pinned = true) : e.role ∈ p.config.pinRoles := by
    simpa [h.represents.pinned he] using hpinned
  have hsome : 0 < p.pinnedKeys.card := by
    rw [card_pinnedKeys]
    omega
  by_cases hstable : role = "stable"
  · obtain ⟨k, hk⟩ := Finset.card_pos.mp hsome
    obtain ⟨e, he, hpinned⟩ := mem_pinnedKeys.mp hk
    refine ⟨k, e, he, hpinned, ?_, Or.inl hstable⟩
    by_cases herole : e.role = "stable"
    · exact Or.inl ⟨hstable, herole⟩
    · exact Or.inr ⟨herole, (hroles _ (hpinnedRole he hpinned)).resolve_left herole⟩
  · obtain ⟨k, e, he, hpinned, herole⟩ : ∃ k e, p.entries.get? k = some e ∧ e.pinned = true ∧
        e.role ≠ "stable" := by
      by_cases hin : "stable" ∈ p.config.pinRoles
      · have hlimit := (htwo hin).resolve_left fun hsingle => hstable
          (Finset.mem_singleton.mp (hsingle ▸ hrole))
        exact h.exists_unstable_pin (hlimit.trans hfull)
      · obtain ⟨k, hk⟩ := Finset.card_pos.mp hsome
        obtain ⟨e, he, hpinned⟩ := mem_pinnedKeys.mp hk
        exact ⟨k, e, he, hpinned, fun herole => hin (herole ▸ hpinnedRole he hpinned)⟩
    exact ⟨k, e, he, hpinned,
      Or.inr ⟨herole, (hroles _ (hpinnedRole he hpinned)).resolve_left herole⟩,
      Or.inr ((hroles role hrole).resolve_left hstable)⟩

/-- Under a sound configuration an admission at the limit evicts a pin. -/
theorem StableLane.makesRoom (h : p.StableLane) (hsound : QuotaSound p.config)
    (hreserve : p.config.transientReserve ≠ 0) {key : CacheKey N} {role : Role} {nbytes : ℤ}
    {predecessor : Option (CacheKey N)}
    (hacc : (p.planAdmission key role nbytes predecessor).accepted = true) :
    p.MakesRoom (p.planAdmission key role nbytes predecessor) := by
  obtain ⟨hplanKey, hplanRole, -, -⟩ := p.planAdmission_spec key role nbytes predecessor
  intro hrole hnew hfull
  rw [hplanRole] at hrole
  rw [hplanKey] at hnew ⊢
  have hbytes := (planAdmission_accepted hacc).2.1.ne'
  have hevicted := evictedKeys_subset (priorEvictions_subset hacc)
  obtain ⟨k, e, he, hpinned, hkind, hlookup⟩ :=
    h.exists_pin hsound hrole hreserve hbytes hfull
  have hmem : k ∈ p.pinnedKeys := mem_pinnedKeys.mpr ⟨e, he, hpinned⟩
  rcases hkind with ⟨hstable, herole⟩ | ⟨herole, hrank⟩
  · -- the stable pin is rotated out
    have hne : k ≠ key := fun hkey => hnew (hkey ▸ hmem)
    have hlane := h.represents.mem_keysForRole_iff.mpr ⟨e, he, herole⟩
    subst hstable
    exact ⟨k, hmem, hne, hevicted
      (evictedKeys_subset (rotateStable_subset_prior _ _ _) (mem_rotateStable hne hlane))⟩
  · -- the search sees the pin, which the rotation has not touched
    have hactive : role ≠ "active" := by
      rintro rfl
      rcases hlookup with hlookup | hlookup <;> revert hlookup <;> decide
    have hunrotated : k ∉ evictedKeys (p.rotateStable key role) := by
      intro hk
      obtain ⟨eviction, heviction, rfl⟩ := mem_evictedKeys.mp hk
      obtain ⟨e', he', herole'⟩ := h.represents.resident
        (rotateStable_stable key role eviction heviction)
      rw [he] at he'
      exact herole (Option.some.inj he' ▸ herole')
    obtain ⟨found, hfound⟩ := h.represents.oldestPin_isSome he hpinned hrank hunrotated
    have hfoundMem := h.represents.oldestPin_pinned hfound
    have hfoundNe : found ≠ key := fun hkey => hnew (hkey ▸ hfoundMem)
    have hunpinned : ¬ (p.entries.get? key).any EntryState.pinned = true := fun hany => by
      obtain ⟨e', he', hpinned'⟩ := (Option.any_eq_true _ _).mp hany
      exact hnew (mem_pinnedKeys.mpr ⟨e', he', hpinned'⟩)
    refine ⟨found, hfoundMem, hfoundNe, hevicted ?_⟩
    rw [priorEvictions, compactLineage_of_ne hactive, enforcePinQuota,
      if_pos ⟨hrole, hunpinned, hfull⟩, hfound]
    exact mem_addEvict hfoundNe _ _

end WorkingSetPolicy

end StateBraid.Policy
