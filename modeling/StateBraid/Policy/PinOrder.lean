import StateBraid.Policy.Protected

/-!
# Pins and transient residents in the order of victims

Pinning acts through the rank of a role alone, and a role with a rank of its own keeps it.
Where every pinned role outranks every transient one that is not pinned, a pin is evicted
for room only after all unpinned transient residents.
-/

namespace StateBraid.Policy
open Library

variable {N : Type} [DecidableEq N]

/-- No pinned role stays below a transient role that is not pinned: `assistant` is below the
unknown roles, and `user` below `system`. -/
def PinsOutrank (config : PolicyConfig) : Prop :=
  "assistant" ∉ config.pinRoles ∧ ("user" ∈ config.pinRoles → "system" ∈ config.pinRoles)

instance (config : PolicyConfig) : Decidable (PinsOutrank config) :=
  inferInstanceAs (Decidable (_ ∧ _))

namespace WorkingSetPolicy

/-- The residents that are neither pinned nor in the working set. -/
def transientKeys (p : WorkingSetPolicy N) : Finset (CacheKey N) :=
  p.residents.filter (fun k => k ∉ p.pinnedKeys ∧ k ∉ p.workingKeys)

/-- When a pin is evicted for room, no unpinned transient resident survives the plan, but
for the admitted key itself. -/
structure PinsOutlast (p : WorkingSetPolicy N) : Prop where
  admission : ∀ key role nbytes predecessor, ∀ pin ∈ p.pinnedKeys,
    pin ∈ evictedFor .capacity (p.planAdmission key role nbytes predecessor).evictions →
    ∀ k ∈ p.transientKeys, k ≠ key →
      k ∈ evictedKeys (p.planAdmission key role nbytes predecessor).evictions
  trim : ∀ nSequences nBytes plan, p.planTrim nSequences nBytes = .ok plan →
    ∀ pin ∈ p.pinnedKeys, pin ∈ evictedFor .trim plan.evictions →
    ∀ k ∈ p.transientKeys, k ∈ evictedKeys plan.evictions

variable {p : WorkingSetPolicy N} {key k : CacheKey N} {role : Role} {nbytes : ℤ}
variable {predecessor : Option (CacheKey N)}

/-- The rank of a transient role that is not pinned. -/
theorem rank_of_transient {N : Type} {p : WorkingSetPolicy N} {s : Role}
    (hs : s ∉ p.config.pinRoles) (hstable : s ≠ "stable") (hactive : s ≠ "active") :
    p.rank s = 20 ∨ s = "assistant" ∧ p.rank s = 10 ∨ s = "user" ∧ p.rank s = 30 ∨
      s = "system" ∧ p.rank s = 50 := by
  cases hlookup : roleRanks.lookup s with
  | none =>
    refine Or.inl ?_
    rw [rank, if_neg hs, hlookup]
    rfl
  | some own =>
    rw [rank_of_lookup hlookup]
    have hmem := lookup_mem_roleRanks hlookup
    simp only [roleRanks, List.mem_cons, Prod.mk.injEq, hstable, hactive, false_and,
      List.not_mem_nil, or_false, or_self] at hmem
    exact Or.inr hmem

/-- The rank of a pinned role. -/
theorem rank_of_pinned {N : Type} {p : WorkingSetPolicy N} {r : Role} (hr : r ∈ p.config.pinRoles) :
    50 < p.rank r ∨ r = "assistant" ∧ p.rank r = 10 ∨ r = "user" ∧ p.rank r = 30 ∨
      r = "system" ∧ p.rank r = 50 := by
  cases hlookup : roleRanks.lookup r with
  | none =>
    refine Or.inl ?_
    rw [rank, if_pos hr, hlookup]
    decide
  | some own =>
    rw [rank_of_lookup hlookup]
    have hmem := lookup_mem_roleRanks hlookup
    simp only [roleRanks, List.mem_cons, Prod.mk.injEq, List.not_mem_nil, or_false] at hmem
    rcases hmem with h | h | h | ⟨-, rfl⟩ | ⟨-, rfl⟩
    · exact Or.inr (Or.inl h)
    · exact Or.inr (Or.inr (Or.inl h))
    · exact Or.inr (Or.inr (Or.inr h))
    · exact Or.inl (by decide)
    · exact Or.inl (by decide)

/-- A pinned role outranks a transient one that is not pinned. -/
theorem rank_lt_of_pinsOutrank {N : Type} {p : WorkingSetPolicy N} (h : PinsOutrank p.config)
    {r s : Role} (hr : r ∈ p.config.pinRoles) (hs : s ∉ p.config.pinRoles) (hstable : s ≠ "stable")
    (hactive : s ≠ "active") : p.rank s < p.rank r := by
  rcases rank_of_pinned hr with hhigh | ⟨rfl, -⟩ | ⟨rfl, hrank⟩ | ⟨rfl, hrank⟩
  · rcases rank_of_transient hs hstable hactive with h | ⟨-, h⟩ | ⟨-, h⟩ | ⟨-, h⟩ <;> omega
  · exact absurd hr h.1
  · have hsystem := h.2 hr
    rcases rank_of_transient hs hstable hactive with h | ⟨-, h⟩ | ⟨rfl, -⟩ | ⟨rfl, -⟩
    · omega
    · omega
    · exact absurd hr hs
    · exact absurd hsystem hs
  · rcases rank_of_transient hs hstable hactive with h | ⟨-, h⟩ | ⟨-, h⟩ | ⟨rfl, -⟩
    · omega
    · omega
    · omega
    · exact absurd hr hs

/-- The roles of a pin and of a transient resident. -/
theorem Regular.pinned_role (h : p.Regular) (hk : k ∈ p.pinnedKeys) :
    ∃ r, p.roleOf k = some r ∧ r ∈ p.config.pinRoles := by
  obtain ⟨e, he, hpinned⟩ := mem_pinnedKeys.mp hk
  refine ⟨e.role, roleOf_eq_some.mpr ⟨e, he, rfl⟩, ?_⟩
  rw [h.toRepresents.pinned he] at hpinned
  exact of_decide_eq_true hpinned

theorem Regular.transient_role (h : p.Regular) (hk : k ∈ p.transientKeys) :
    ∃ s, p.roleOf k = some s ∧ s ∉ p.config.pinRoles ∧ s ≠ "stable" ∧ s ≠ "active" := by
  obtain ⟨hres, hpin, hwork⟩ := Finset.mem_filter.mp hk
  obtain ⟨e, he⟩ := Dict.mem_keys_iff.mp (mem_residents.mp hres)
  have hrole : p.roleOf k = some e.role := roleOf_eq_some.mpr ⟨e, he, rfl⟩
  rw [mem_workingKeys h.toRepresents, hrole, not_or] at hwork
  refine ⟨e.role, hrole, fun hpinned => hpin (mem_pinnedKeys.mpr ⟨e, he, ?_⟩),
    fun hs => hwork.1 (congrArg some hs), fun hs => hwork.2 (congrArg some hs)⟩
  rw [h.toRepresents.pinned he]
  exact decide_eq_true hpinned

/-- Pins in a queue are taken after all its transient members. -/
theorem Regular.transient_before_pin (h : p.Regular) (hout : PinsOutrank p.config)
    {guarded : Finset (CacheKey N)} (hguarded : guarded ⊆ p.workingKeys)
    {queue taken : List (CacheKey N)} (hqueue : queue.Sublist p.orderedKeys)
    (htaken : taken <+: deferring guarded queue) {pin : CacheKey N} (hpin : pin ∈ p.pinnedKeys)
    (htake : pin ∈ taken) (hk : k ∈ p.transientKeys) (hmem : k ∈ queue) : k ∈ taken := by
  by_contra hleft
  have houtside : k ∉ guarded := fun hin => (Finset.mem_filter.mp hk).2.2 (hguarded hin)
  have hfront := ShortestPrefix.prefix_filter htaken hmem houtside hleft
  have hsorted : (queue.filter (fun a => a ∉ guarded)).Pairwise p.Precedes :=
    (h.victimOrder.sorted.sublist hqueue).filter _
  have hbefore := ShortestPrefix.rel hsorted hfront htake
    (List.mem_filter.mpr ⟨hmem, decide_eq_true houtside⟩) hleft
  obtain ⟨r, hr, hpinned⟩ := h.pinned_role hpin
  obtain ⟨s, hs, hunpinned, hstable, hactive⟩ := h.transient_role hk
  exact absurd (hbefore.rank_le hr hs)
    (not_le.mpr (rank_lt_of_pinsOutrank hout hpinned hunpinned hstable hactive))

theorem protection_subset (p : WorkingSetPolicy N) (key : CacheKey N) (role : Role) (nbytes : ℤ)
    (evicted : Finset (CacheKey N)) : p.protection key role nbytes evicted ⊆ p.workingKeys := by
  unfold protection
  split_ifs
  · exact Finset.sdiff_subset
  · exact Finset.empty_subset _

theorem trimProtection_subset (p : WorkingSetPolicy N) (targets : ℕ × ℕ) :
    p.trimProtection targets ⊆ p.workingKeys := by
  unfold trimProtection
  split_ifs
  · exact subset_rfl
  · exact Finset.empty_subset _

/-- Where pinned roles outrank the transient ones, pins outlast transient residents. -/
theorem Regular.pinsOutlast (h : p.Regular) (hout : PinsOutrank p.config) : p.PinsOutlast where
  admission key role nbytes predecessor pin hpin hevicted k hk hne := by
    have hchron := h.toChronological
    by_cases hroom : p.Admissible nbytes
    · obtain ⟨taken, htaken⟩ := hchron.exists_takes hroom key role predecessor
      rw [(hchron.evicted_parts hroom htaken).1] at hevicted
      rw [hchron.mem_evictedKeys_plan hroom htaken]
      have hprefix := ((takes_iff hchron.toRepresents).mp htaken).isPrefix
      by_cases hprior : k ∈ evictedKeys (p.priorEvictions key role predecessor)
      · exact Or.inl hprior
      · have hmem : k ∈ p.orderedKeys.filter (fun k => k ≠ key ∧
            k ∉ evictedKeys (p.priorEvictions key role predecessor)) := by
          rw [List.mem_filter, hchron.mem_orderedKeys, decide_eq_true_eq]
          exact ⟨mem_residents.mp (Finset.mem_filter.mp hk).1, hne, hprior⟩
        exact Or.inr (h.transient_before_pin hout (p.protection_subset _ _ _ _)
          List.filter_sublist hprefix hpin hevicted hk hmem)
    · obtain ⟨reason, -, hplan⟩ := planAdmission_refused hroom key role predecessor
      rw [hplan] at hevicted
      exact absurd hevicted List.not_mem_nil
  trim nSequences nBytes plan hplan pin hpin hevicted k hk := by
    have hchron := h.toChronological
    obtain ⟨plan', hplan', hshort, -⟩ := hchron.planTrim_shortest nSequences nBytes
    obtain rfl : plan' = plan := Except.ok.inj (hplan'.symm.trans hplan)
    have htake : pin ∈ plan'.evictions.map Eviction.key :=
      List.mem_map.mpr ⟨_, mem_evictedFor.mp hevicted, rfl⟩
    have hmem : k ∈ p.orderedKeys :=
      hchron.mem_orderedKeys.mpr (mem_residents.mp (Finset.mem_filter.mp hk).1)
    exact List.mem_toFinset.mpr (h.transient_before_pin hout (p.trimProtection_subset _)
      (List.Sublist.refl _) hshort.victims.isPrefix hpin htake hk hmem)

/-- With one resident at most there is nothing to outlast. -/
theorem pinsOutlast_of_subsingleton (h : p.Regular) (hone : p.nSequences ≤ 1) : p.PinsOutlast := by
  have hsame {pin k : CacheKey N} (hpin : pin ∈ p.pinnedKeys) : k ∉ p.transientKeys := by
    intro hk
    obtain ⟨hres, hunpinned, -⟩ := Finset.mem_filter.mp hk
    obtain ⟨r, hr, -⟩ := h.pinned_role hpin
    rw [← card_residents] at hone
    have heq := Finset.card_le_one.mp hone pin (mem_residents.mpr (mem_keys_of_roleOf hr)) k hres
    exact hunpinned (heq ▸ hpin)
  exact ⟨fun _ _ _ _ _ hpin _ _ hk => absurd hk (hsame hpin),
    fun _ _ _ _ _ hpin _ _ hk => absurd hk (hsame hpin)⟩

/-! ## Two residents of which the pinned one goes first -/

/-- An empty transient entry for which there is a slot is put beside the residents. -/
theorem Regular.admits_beside (h : p.Regular) (hbytes : 0 < p.config.maxBytes)
    (hcount : p.nSequences + 1 ≤ p.config.maxSequences) (hrole : role ≠ "stable")
    (hquota : p.quotaPin key role = []) :
    (p.commit (p.planAdmission key role 0 none)).entries.get? k =
      if k = key then some ⟨key, role, 0, decide (role ∈ p.config.pinRoles), 0⟩
      else p.entries.get? k := by
  have hroom : p.Admissible 0 := ⟨by omega, hbytes, by simp⟩
  have hprior : p.priorEvictions key role none = [] := by
    rw [priorEvictions_eq h.toRepresents, hquota, rotated, if_neg hrole]
    rfl
  have hall : p.RoomFor key (max 0 0) (evictedKeys (p.priorEvictions key role none) ∪
      ([] : List (CacheKey N)).toFinset) := by
    have hfits : p.FitsWith p.residents (max 0 0) := by
      refine ⟨by rwa [card_residents], ?_⟩
      rw [bytesOf_residents, max_self, add_zero]
      exact h.limits.bytes
    exact hfits.mono h.limits ((Finset.erase_subset _ _).trans Finset.sdiff_subset)
  have htaken : p.Takes key role 0 none [] := (takes_iff h.toRepresents).mpr (.nil hall)
  have hplan := h.toChronological.planAdmission_eq hroom htaken
  rw [hprior, List.map_nil, List.append_nil, max_self] at hplan
  rw [hplan, commit_get? p rfl]
  simp [plannedEntry]

/-- Two entries are resident: a pin, and an unpinned transient entry of a higher rank. -/
structure OutrankedPin (p : WorkingSetPolicy N) (pin other : CacheKey N) (r s : Role) : Prop where
  ne : other ≠ pin
  keys : ∀ k, k ∈ p.entries.keys ↔ k = pin ∨ k = other
  pinned : pin ∈ p.pinnedKeys
  pin_role : p.roleOf pin = some r
  other_role : p.roleOf other = some s
  unpinned : s ∉ p.config.pinRoles
  pin_idle : r ≠ "stable" ∧ r ≠ "active"
  other_idle : s ≠ "stable" ∧ s ≠ "active"
  rank : p.rank r < p.rank s
  fits : p.heldBytes other ≤ p.config.maxBytes

namespace OutrankedPin

variable {pin other : CacheKey N} {r s : Role}

theorem residents_eq (hpair : p.OutrankedPin pin other r s) : p.residents = {pin, other} := by
  ext k
  rw [mem_residents, hpair.keys, Finset.mem_insert, Finset.mem_singleton]

theorem orderedKeys_eq (hpair : p.OutrankedPin pin other r s) (h : p.Regular) :
    p.orderedKeys = [pin, other] := by
  have hbefore : p.Precedes pin other :=
    ⟨r, s, hpair.pin_role, hpair.other_role, Or.inl (Or.inl hpair.rank)⟩
  refine h.toChronological.victimOrder.unique ⟨fun k => ?_, by simpa using hbefore⟩
  rw [hpair.keys]
  simp

theorem workingKeys_eq (hpair : p.OutrankedPin pin other r s) (h : p.Regular) :
    p.workingKeys = ∅ := by
  refine Finset.eq_empty_of_forall_notMem fun k hk => ?_
  have hmem := mem_residents.mp (workingKeys_subset h.toRepresents hk)
  rw [mem_workingKeys h.toRepresents] at hk
  rcases (hpair.keys k).mp hmem with rfl | rfl
  · simp [hpair.pin_role, hpair.pin_idle] at hk
  · simp [hpair.other_role, hpair.other_idle] at hk

theorem mem_transientKeys (hpair : p.OutrankedPin pin other r s) (h : p.Regular) :
    other ∈ p.transientKeys := by
  refine Finset.mem_filter.mpr ⟨mem_residents.mpr ((hpair.keys other).mpr (Or.inr rfl)), ?_, ?_⟩
  · intro hmem
    obtain ⟨r', hr', hin⟩ := h.pinned_role hmem
    exact hpair.unpinned (Option.some.inj (hr'.symm.trans hpair.other_role) ▸ hin)
  · rw [hpair.workingKeys_eq h]
    exact Finset.notMem_empty other

/-- Without the pin the two are within a target of one sequence, with it they are not. -/
theorem pin_suffices (hpair : p.OutrankedPin pin other r s) :
    p.Within (p.residents \ [pin].toFinset) 1 p.config.maxBytes ∧
      ¬ p.Within p.residents 1 p.config.maxBytes := by
  constructor
  · have hleft : p.residents \ [pin].toFinset = {other} := by
      rw [hpair.residents_eq]
      ext k
      simp only [Finset.mem_sdiff, Finset.mem_insert, Finset.mem_singleton, List.mem_toFinset,
        List.mem_singleton]
      constructor
      · rintro ⟨hk, hnot⟩
        exact hk.resolve_left hnot
      · rintro rfl
        exact ⟨Or.inr rfl, hpair.ne⟩
    rw [hleft, Within, Finset.card_singleton, bytesOf, Finset.sum_singleton]
    exact ⟨le_rfl, hpair.fits⟩
  · intro hwithin
    have hcard := hwithin.1
    rw [hpair.residents_eq, Finset.card_pair hpair.ne.symm] at hcard
    omega

/-- A trim to one sequence evicts the pin and nothing else. -/
theorem trim_evicts (hpair : p.OutrankedPin pin other r s) (h : p.Regular) :
    ∃ plan, p.planTrim (some 1) none = .ok plan ∧ plan.evictions.map Eviction.key = [pin] ∧
      pin ∈ evictedFor .trim plan.evictions := by
  obtain ⟨plan, hplan, hshort, -⟩ := h.toChronological.planTrim_shortest (some 1) none
  have hvictims := hshort.victims
  have hguarded : p.trimProtection (p.trimTargets (some 1) none) = ∅ :=
    Finset.subset_empty.mp (hpair.workingKeys_eq h ▸ p.trimProtection_subset _)
  have htargets : p.trimTargets (some 1) none = (1, p.config.maxBytes) := rfl
  rw [hguarded, deferring_empty, hpair.orderedKeys_eq h, htargets] at hvictims
  have hneeds : ¬ p.Within (p.residents \ ([] : List (CacheKey N)).toFinset) 1
      p.config.maxBytes := by
    rw [List.toFinset_nil, Finset.sdiff_empty]
    exact hpair.pin_suffices.2
  obtain ⟨rest, hrest, htail⟩ := hvictims.cons_inv hneeds
  obtain rfl := htail.eq_nil hpair.pin_suffices.1
  obtain ⟨e, he, hkey⟩ := List.mem_map.mp (hrest ▸ List.mem_cons_self :
    pin ∈ plan.evictions.map Eviction.key)
  refine ⟨plan, hplan, hrest, ?_⟩
  rw [mem_evictedFor, ← hkey, ← hshort.reason e he]
  exact he

theorem not_pinsOutlast (hpair : p.OutrankedPin pin other r s) (h : p.Regular) :
    ¬ p.PinsOutlast := by
  intro houtlast
  obtain ⟨plan, hplan, honly, htrim⟩ := hpair.trim_evicts h
  have hgone := houtlast.trim (some 1) none plan hplan pin hpair.pinned htrim other
    (hpair.mem_transientKeys h)
  rw [evictedKeys, honly] at hgone
  simp [hpair.ne] at hgone

end OutrankedPin

/-- Of two empty residents, the pinned one of a lower rank is what a trim to one takes. -/
theorem Regular.trim_takes_pin (h : p.Regular) {pin other : CacheKey N} {r s : Role} {b : Bool}
    (hne : other ≠ pin) (hunpinned : s ∉ p.config.pinRoles) (hstable : s ≠ "stable")
    (hactive : s ≠ "active") (hr : r ≠ "stable" ∧ r ≠ "active") (hrank : p.rank r < p.rank s)
    (htable : ∀ k, p.entries.get? k = if k = other then some ⟨other, s, 0, b, 0⟩
      else if k = pin then some ⟨pin, r, 0, true, 0⟩ else none) : ¬ p.PinsOutlast := by
  have hpin : p.entries.get? pin = some ⟨pin, r, 0, true, 0⟩ := by
    rw [htable, if_neg hne.symm, if_pos rfl]
  have hother : p.entries.get? other = some ⟨other, s, 0, b, 0⟩ := by rw [htable, if_pos rfl]
  have hkeys (k : CacheKey N) : k ∈ p.entries.keys ↔ k = pin ∨ k = other := by
    rw [Dict.mem_keys_iff, htable]
    split_ifs with hk hk'
    · simp [hk]
    · simp [hk']
    · simp [hk, hk']
  have hpair : p.OutrankedPin pin other r s :=
    { ne := hne
      keys := hkeys
      pinned := mem_pinnedKeys.mpr ⟨_, hpin, rfl⟩
      pin_role := roleOf_eq_some.mpr ⟨_, hpin, rfl⟩
      other_role := roleOf_eq_some.mpr ⟨_, hother, rfl⟩
      unpinned := hunpinned
      pin_idle := hr
      other_idle := ⟨hstable, hactive⟩
      rank := hrank
      fits := by simp [heldBytes_of_get? hother] }
  exact hpair.not_pinsOutlast h

/-- The empty policy after the admission of an empty entry. -/
def admitEmpty (p : WorkingSetPolicy N) (key : CacheKey N) (role : Role) : WorkingSetPolicy N :=
  p.commit (p.planAdmission key role 0 none)

theorem admitEmpty_config (p : WorkingSetPolicy N) (key : CacheKey N) (role : Role) :
    (p.admitEmpty key role).config = p.config := commit_config _ _

/-- A pin and then an unpinned entry, both empty, make the two residents. -/
theorem admitEmpty_twice {config : PolicyConfig} (htwo : 2 ≤ config.maxSequences)
    (hbytes : 0 < config.maxBytes) {pin other : CacheKey N} {r s : Role} (hr : r ≠ "stable")
    (hs : s ≠ "stable") (hpinned : r ∈ config.pinRoles) (hunpinned : s ∉ config.pinRoles) :
    ((((new config).admitEmpty pin r).admitEmpty other s).entries.get? k) =
      if k = other then some ⟨other, s, 0, false, 0⟩
      else if k = pin then some ⟨pin, r, 0, true, 0⟩ else none := by
  have hnew : (new config : WorkingSetPolicy N).Regular := .new config
  have hnone : (new config : WorkingSetPolicy N).quotaPin pin r = [] := by
    refine List.eq_nil_iff_forall_not_mem.mpr fun k hk => ?_
    obtain ⟨r', hr', -⟩ := roleOf_of_oldestPin hnew.toRepresents (mem_quotaPin.mp hk).2.1
    obtain ⟨e, he, -⟩ := roleOf_eq_some.mp hr'
    cases he
  have hpin (k : CacheKey N) : ((new config).admitEmpty pin r).entries.get? k =
      if k = pin then some ⟨pin, r, 0, true, 0⟩ else none := by
    have hone : (new config : WorkingSetPolicy N).nSequences + 1 ≤ config.maxSequences :=
      le_trans (by decide : 0 + 1 ≤ 2) htwo
    have htable := hnew.admits_beside (k := k) hbytes hone hr hnone
    rw [decide_eq_true (show r ∈ (new config : WorkingSetPolicy N).config.pinRoles from hpinned)]
      at htable
    exact htable
  have hregular : ((new config : WorkingSetPolicy N).admitEmpty pin r).Regular :=
    hnew.planAdmission pin r 0 none
  have hconfig := admitEmpty_config (new config : WorkingSetPolicy N) pin r
  generalize (new config).admitEmpty pin r = first at *
  have hconfig : first.config = config := hconfig
  have hcard : first.nSequences = 1 := by
    have hres : first.residents = {pin} := by
      ext k
      rw [mem_residents, Dict.mem_keys_iff, hpin, Finset.mem_singleton]
      split_ifs with hk <;> simp [hk]
    rw [← card_residents, hres, Finset.card_singleton]
  have hquota : first.quotaPin other s = [] := by
    refine if_neg fun hcalls => ?_
    rcases hcalls with ⟨hin, -⟩ | ⟨-, -, hfull, -⟩
    · exact hunpinned (hconfig ▸ hin)
    · rw [hcard, hconfig] at hfull
      omega
  have htable := hregular.admits_beside (k := k) (by rwa [hconfig]) (by rwa [hconfig, hcard]) hs
    hquota
  rw [hconfig, decide_eq_false hunpinned, hpin] at htable
  exact htable

end WorkingSetPolicy

end StateBraid.Policy
