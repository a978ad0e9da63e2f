import StateBraid.Policy.StableLane

/-!
# The order of admission

The entry table and every role bucket are kept in the order of admission: a resident
that is admitted again goes last in both, and nothing else moves. So a bucket is the
part of the table with its role, read in the same order.
-/

namespace StateBraid.Policy
open Library

variable {N : Type} [DecidableEq N]

namespace WorkingSetPolicy

/-- The role a resident is held under. -/
def roleOf (p : WorkingSetPolicy N) (k : CacheKey N) : Option Role :=
  (p.entries.get? k).map EntryState.role

/-- The residents of a role, in the order of the table. -/
def admittedUnder (p : WorkingSetPolicy N) (role : Role) : List (CacheKey N) :=
  p.entries.keys.filter (fun k => p.roleOf k = some role)

/-- Table and buckets agree, also in their order. -/
structure Chronological (p : WorkingSetPolicy N) : Prop extends Represents p where
  chronological : ∀ role, p.keysForRole role = p.admittedUnder role

variable {p q : WorkingSetPolicy N} {k : CacheKey N} {role : Role}

theorem roleOf_eq_some : p.roleOf k = some role ↔
    ∃ e, p.entries.get? k = some e ∧ e.role = role := by
  simp [roleOf, Option.map_eq_some_iff]

theorem mem_keys_of_roleOf (h : p.roleOf k = some role) : k ∈ p.entries.keys := by
  obtain ⟨e, he, -⟩ := roleOf_eq_some.mp h
  exact Dict.mem_keys_of_get? he

theorem exists_roleOf (h : k ∈ p.entries.keys) : ∃ role, p.roleOf k = some role := by
  obtain ⟨e, he⟩ := Dict.mem_keys_iff.mp h
  exact ⟨e.role, roleOf_eq_some.mpr ⟨e, he, rfl⟩⟩

theorem Represents.mem_keysForRole (h : p.Represents) :
    k ∈ p.keysForRole role ↔ p.roleOf k = some role := by
  rw [roleOf_eq_some]
  exact h.mem_keysForRole_iff

theorem observeHit_tableKeys (p : WorkingSetPolicy N) (key : CacheKey N) :
    (p.observeHit key).2.entries.keys = p.entries.keys := by
  unfold observeHit
  split
  · rfl
  · exact Dict.keys_insert_of_mem _ (Dict.mem_keys_of_get? (by assumption))

/-- The order only depends on the keys of the table and on their roles. -/
theorem admittedUnder_congr (hkeys : q.entries.keys = p.entries.keys)
    (hroles : ∀ k, q.roleOf k = p.roleOf k) (role : Role) :
    q.admittedUnder role = p.admittedUnder role := by
  simp only [admittedUnder, hkeys, hroles]

namespace Chronological

theorem new (config : PolicyConfig) :
    (WorkingSetPolicy.new config : WorkingSetPolicy N).Chronological where
  toRepresents := new_represents config
  chronological role := by simp [WorkingSetPolicy.new, keysForRole, admittedUnder]

theorem congr (h : p.Chronological) (hsame : SameResidents p q) : q.Chronological where
  toRepresents := h.toRepresents.congr hsame
  chronological role := by
    have hroles (k : CacheKey N) : q.roleOf k = p.roleOf k := by
      rw [roleOf, hsame.entries, roleOf]
    rw [admittedUnder_congr (by rw [hsame.entries]) hroles, keysForRole, hsame.buckets]
    exact h.chronological role

/-- A removal closes the gap in both. -/
theorem removeEntry (h : p.Chronological) (k : CacheKey N) : (p.removeEntry k).2.Chronological where
  toRepresents := removeEntry_represents h.toRepresents k
  chronological role := by
    rw [removeEntry_keysForRole h.toRepresents, h.chronological, admittedUnder, admittedUnder,
      removeEntry_entries, Dict.keys_erase, List.filter_filter, List.filter_filter]
    refine List.filter_congr fun j _ => ?_
    have hrole : (p.removeEntry k).2.roleOf j = if j = k then none else p.roleOf j := by
      rw [roleOf, removeEntry_entries, Dict.get?_erase, roleOf]
      split_ifs <;> rfl
    rw [hrole]
    by_cases hj : j = k <;> simp [hj]

theorem foldl {remove : WorkingSetPolicy N → Eviction N → WorkingSetPolicy N}
    (hremove : ∀ p e, SameResidents (p.removeEntry e.key).2 (remove p e))
    (evictions : List (Eviction N)) (h : p.Chronological) :
    (evictions.foldl remove p).Chronological := by
  induction evictions generalizing p with
  | nil => exact h
  | cons e evictions ih => exact ih ((h.removeEntry e.key).congr (hremove p e))

/-- A key that is not resident goes last in both. -/
theorem insertEntry (h : p.Chronological) {plan : AdmissionPlan N}
    (hnew : p.entries.get? plan.key = none) : (p.insertEntry plan).Chronological where
  toRepresents := insertEntry_represents h.toRepresents hnew
  chronological role := by
    have habsent : plan.key ∉ p.entries.keys := Dict.get?_eq_none_iff.mp hnew
    have hkeys : (p.insertEntry plan).entries.keys = p.entries.keys ++ [plan.key] :=
      Dict.keys_insert_of_not_mem _ habsent
    have hrole (j : CacheKey N) : (p.insertEntry plan).roleOf j =
        if j = plan.key then some plan.role else p.roleOf j := by
      rw [roleOf, WorkingSetPolicy.insertEntry, Dict.get?_insert, roleOf]
      split_ifs <;> rfl
    have hbucket : (p.insertEntry plan).keysForRole role =
        p.keysForRole role ++ if role = plan.role then [plan.key] else [] := by
      split_ifs with hsame
      · subst hsame
        have hfresh : plan.key ∉ (p.bucket plan.role).keys := fun hmem =>
          habsent (h.toRepresents.mem_keys hmem)
        simp only [keysForRole, WorkingSetPolicy.insertEntry, Dict.get?_insert, if_pos,
          Option.getD_some]
        rw [Dict.keys_insert_of_not_mem _ hfresh]
        rfl
      · simp [keysForRole, WorkingSetPolicy.insertEntry, hsame]
    rw [hbucket, h.chronological, admittedUnder, admittedUnder, hkeys, List.filter_append]
    congr 1
    · refine List.filter_congr fun j hj => ?_
      rw [hrole, if_neg fun he : j = plan.key => habsent (he ▸ hj)]
    · by_cases hsame : role = plan.role
      · simp [hsame, hrole]
      · simp [hsame, hrole, Ne.symm hsame]

theorem commit (h : p.Chronological) (plan : AdmissionPlan N) : (p.commit plan).Chronological := by
  unfold WorkingSetPolicy.commit
  split
  · have hcleared := (h.foldl commitEviction_sameResidents plan.evictions).removeEntry plan.key
    exact (hcleared.insertEntry (removeEntry_get?_self _ _)).congr
      (commitStable_sameResidents _ plan)
  · exact h

theorem commitTrim (h : p.Chronological) (plan : TrimPlan N) :
    (p.commitTrim plan).Chronological := h.foldl commitTrimEviction_sameResidents _

theorem observeHit (h : p.Chronological) (key : CacheKey N) :
    (p.observeHit key).2.Chronological where
  toRepresents := observeHit_represents h.toRepresents key
  chronological role := by
    have hroles (k : CacheKey N) : (p.observeHit key).2.roleOf k = p.roleOf k := by
      rw [roleOf, observeHit_get?, Option.map_map, roleOf]
      congr 1
      funext e
      simp only [Function.comp_apply]
      split_ifs <;> rfl
    have hbuckets : (p.observeHit key).2.keysForRole role = p.keysForRole role := by
      unfold WorkingSetPolicy.observeHit
      split <;> rfl
    rw [hbuckets, admittedUnder_congr (observeHit_tableKeys p key) hroles]
    exact h.chronological role

end Chronological

/-! ## What every reachable policy satisfies -/

/-- Table and buckets agree in their order, one resident at most is stable, the limits are
kept, and a policy without bytes holds nothing. -/
structure Regular (p : WorkingSetPolicy N) : Prop extends Chronological p where
  lane : p.StableLane
  limits : p.WithinLimits
  idle : p.config.maxBytes = 0 → p.entries.keys = []

namespace Regular

theorem new (config : PolicyConfig) :
    (WorkingSetPolicy.new config : WorkingSetPolicy N).Regular where
  toChronological := .new config
  lane := .new config
  limits := new_withinLimits config
  idle _ := rfl

theorem congr (h : p.Regular) (hsame : SameResidents p q) : q.Regular where
  toChronological := h.toChronological.congr hsame
  lane := h.lane.congr hsame
  limits := h.limits.congr hsame.entries hsame.config
  idle := by
    rw [hsame.config, hsame.entries]
    exact h.idle

/-- Committing a plan that fits, rotates the lane and is only accepted where there are
bytes. -/
theorem commit (h : p.Regular) {plan : AdmissionPlan N} (hrotates : p.Rotates plan)
    (hfits : FitsLimits p plan) (hbytes : plan.accepted = true → 0 < p.config.maxBytes) :
    (p.commit plan).Regular where
  toChronological := h.toChronological.commit plan
  lane := h.lane.commit hrotates
  limits := commit_withinLimits h.limits hfits
  idle hzero := by
    rw [commit_config] at hzero
    cases hacc : plan.accepted with
    | false =>
      rw [commit_rejected p hacc]
      exact h.idle hzero
    | true => exact absurd hzero (hbytes hacc).ne'

theorem planAdmission (h : p.Regular) (key : CacheKey N) (role : Role) (nbytes : ℤ)
    (predecessor : Option (CacheKey N)) :
    (p.commit (p.planAdmission key role nbytes predecessor)).Regular :=
  h.commit (p.planAdmission_rotates key role nbytes predecessor)
    (p.planAdmission_fits key role nbytes predecessor) fun hacc => (planAdmission_accepted hacc).2.1

theorem planStable (h : p.Regular) {key : CacheKey N} {nbytes : ℤ} {plan : AdmissionPlan N}
    (hplan : planStableCandidate key nbytes p = (.ok plan, q)) : (q.commit plan).Regular := by
  have hsame := p.planStableCandidate_sameResidents key nbytes
  rw [hplan] at hsame
  refine (h.congr hsame).commit (planStableCandidate_rotates hplan)
    (planStableCandidate_fits hplan) fun hacc => ?_
  obtain ⟨reason, -, rfl⟩ := planStableCandidate_accepted hplan hacc
  have hadmission : (q.planAdmission key "stable" nbytes none).accepted = true := hacc
  exact (planAdmission_accepted hadmission).2.1

theorem commitTrim (h : p.Regular) (plan : TrimPlan N) : (p.commitTrim plan).Regular where
  toChronological := h.toChronological.commitTrim plan
  lane := h.lane.commitTrim plan
  limits := commitTrim_withinLimits h.limits plan
  idle hzero := by
    rw [commitTrim_config] at hzero
    rw [commitTrim_entries, Dict.keys_filterKeys, h.idle hzero, List.filter_nil]

theorem observeHit (h : p.Regular) (key : CacheKey N) : (p.observeHit key).2.Regular where
  toChronological := h.toChronological.observeHit key
  lane := h.lane.observeHit key
  limits := observeHit_withinLimits h.limits key
  idle hzero := by
    rw [observeHit_config] at hzero
    rw [observeHit_tableKeys]
    exact h.idle hzero

end Regular

end WorkingSetPolicy

end StateBraid.Policy
