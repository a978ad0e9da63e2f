import StateBraid.Policy.Effects
import StateBraid.Policy.Pins

/-!
# What the counters count

A counter of the policy moves at a commit, and by residents that leave in it: a trim
counts the pins it removes, an admission the pin that the quota took, the predecessor it
compacted and the pins among the capacity victims. Promotions and probations of stable
candidates are counted where they are decided.
-/

namespace StateBraid.Policy
open Library

variable {N : Type} [DecidableEq N]

/-- The five counters. -/
inductive Counter
  | pins | quotaPins | successors | promotions | rejections
  deriving DecidableEq

/-- Whether the commit of an eviction moves a counter. -/
def Counter.countsEviction (counter : Counter) (reason : EvictionReason) (entry : EntryState N) :
    Bool :=
  match counter with
  | .pins => reason = .capacity ∧ entry.pinned
  | .quotaPins => reason = .pinQuota
  | .successors => reason = .activeSuccessor
  | .promotions | .rejections => false

/-- A promotion of a candidate. -/
def AdmissionPlan.Promotes (plan : AdmissionPlan N) : Prop :=
  plan.role = "stable" ∧ (plan.reason = .stableColdLarger ∨ plan.reason = .stableRepeatedMiss)

instance (plan : AdmissionPlan N) : Decidable plan.Promotes :=
  inferInstanceAs (Decidable (_ ∧ _))

/-- The residents that an admission displaces by the rules other than capacity. -/
structure Displaced (N : Type) where
  rotated : Finset (CacheKey N)
  compacted : Finset (CacheKey N)
  quota : Finset (CacheKey N)

/-- Nothing is displaced by a rule. -/
def Displaced.nothing : Displaced N := ⟨∅, ∅, ∅⟩

namespace WorkingSetPolicy

/-- The value of a counter. -/
def counter (p : WorkingSetPolicy N) : Counter → ℕ
  | .pins => p.pinEvictions
  | .quotaPins => p.pinQuotaEvictions
  | .successors => p.activeSuccessorEvictions
  | .promotions => p.stableCandidatePromotions
  | .rejections => p.stableCandidateRejections

/-- The residents of `p` that are none of `q`. -/
def departed (p q : WorkingSetPolicy N) : Finset (CacheKey N) := p.residents \ q.residents

variable {p q r : WorkingSetPolicy N} {key k : CacheKey N} {role : Role} {nbytes : ℤ}
variable {predecessor : Option (CacheKey N)}

theorem mem_departed : k ∈ p.departed q ↔ k ∈ p.entries.keys ∧ k ∉ q.entries.keys := by
  rw [departed, Finset.mem_sdiff, mem_residents, mem_residents]

theorem departed_of_keys (h : q.entries.keys = p.entries.keys) : p.departed q = ∅ := by
  ext k
  simp [mem_departed, h]

/-! ## Trims -/

/-- A policy that only lost residents, every pin among them counted. -/
structure Shrinks (p q : WorkingSetPolicy N) : Prop where
  kept : ∀ {k e}, q.entries.get? k = some e → p.entries.get? k = some e
  pins : q.counter .pins = p.counter .pins + (p.departed q ∩ p.pinnedKeys).card
  others : ∀ counter, counter ≠ .pins → q.counter counter = p.counter counter

namespace Shrinks

theorem refl (p : WorkingSetPolicy N) : Shrinks p p where
  kept h := h
  pins := by simp [departed]
  others _ _ := rfl

theorem mem_keys (h : Shrinks p q) (hk : k ∈ q.entries.keys) : k ∈ p.entries.keys := by
  obtain ⟨e, he⟩ := Dict.mem_keys_iff.mp hk
  exact Dict.mem_keys_of_get? (h.kept he)

/-- What leaves later was no different before. -/
theorem pinned_departed (h : Shrinks p q) (hk : k ∈ q.entries.keys) :
    k ∈ q.pinnedKeys ↔ k ∈ p.pinnedKeys := by
  obtain ⟨e, he⟩ := Dict.mem_keys_iff.mp hk
  rw [mem_pinnedKeys, mem_pinnedKeys, he, h.kept he]

theorem trans (h : Shrinks p q) (h' : Shrinks q r) : Shrinks p r where
  kept hr := h.kept (h'.kept hr)
  pins := by
    have hsplit : p.departed r ∩ p.pinnedKeys =
        (p.departed q ∩ p.pinnedKeys) ∪ (q.departed r ∩ q.pinnedKeys) := by
      ext k
      simp only [Finset.mem_union, Finset.mem_inter, mem_departed]
      by_cases hq : k ∈ q.entries.keys
      · have hp := h.mem_keys hq
        simp [hq, hp, h.pinned_departed hq]
      · have hr : k ∉ r.entries.keys := fun hr => hq (h'.mem_keys hr)
        simp [hq, hr]
    have hdisjoint : Disjoint (p.departed q ∩ p.pinnedKeys) (q.departed r ∩ q.pinnedKeys) := by
      rw [Finset.disjoint_left]
      intro k hk hk'
      simp only [Finset.mem_inter, mem_departed] at hk hk'
      exact hk.1.2 hk'.1.1
    rw [h'.pins, h.pins, hsplit, Finset.card_union_of_disjoint hdisjoint, Nat.add_assoc]
  others counter hne := (h'.others counter hne).trans (h.others counter hne)

end Shrinks

theorem removeEntry_counter (p : WorkingSetPolicy N) (k : CacheKey N) (counter : Counter) :
    (p.removeEntry k).2.counter counter = p.counter counter := by
  unfold removeEntry
  split <;> cases counter <;> rfl

theorem shrinks_commitTrimEviction (p : WorkingSetPolicy N) (eviction : Eviction N) :
    Shrinks p (p.commitTrimEviction eviction) := by
  have hentries := commitTrimEviction_entries p eviction
  have hcounter := p.removeEntry_counter eviction.key
  have hfound := p.removeEntry_fst eviction.key
  have hkept : ∀ {k e}, (p.commitTrimEviction eviction).entries.get? k = some e →
      p.entries.get? k = some e := by
    intro k e he
    rw [hentries, Dict.get?_erase] at he
    split_ifs at he
    exact he
  have hdeparted : p.departed (p.commitTrimEviction eviction) =
      p.residents.filter (fun k => k = eviction.key) := by
    ext k
    rw [mem_departed, hentries, Dict.mem_keys_erase, Finset.mem_filter, mem_residents]
    tauto
  rw [commitTrimEviction] at hkept hdeparted ⊢
  rcases hremove : p.removeEntry eviction.key with ⟨found, q⟩
  rw [hremove] at hfound hcounter hkept hdeparted
  dsimp only at hfound hcounter hkept hdeparted ⊢
  subst hfound
  cases hget : p.entries.get? eviction.key with
  | none =>
    rw [hget] at hkept hdeparted
    refine ⟨hkept, ?_, fun counter _ => hcounter counter⟩
    have hempty : p.residents.filter (fun k => k = eviction.key) = ∅ := by
      refine Finset.filter_eq_empty_iff.mpr fun k hk heq => ?_
      exact Dict.get?_eq_none_iff.mp hget (heq ▸ mem_residents.mp hk)
    simp [hdeparted, hempty, hcounter]
  | some removed =>
    rw [hget] at hkept hdeparted
    dsimp only at hkept hdeparted ⊢
    have hone : p.residents.filter (fun k => k = eviction.key) = {eviction.key} := by
      ext k
      simp only [Finset.mem_filter, mem_residents, Finset.mem_singleton, and_iff_right_iff_imp]
      rintro rfl
      exact Dict.mem_keys_of_get? hget
    refine ⟨hkept, ?_, fun counter hne => ?_⟩
    · rw [hdeparted, hone]
      have hmem : eviction.key ∈ p.pinnedKeys ↔ removed.pinned = true := by
        rw [mem_pinnedKeys, hget]
        simp
      by_cases hpinned : removed.pinned = true
      · rw [if_pos hpinned, Finset.singleton_inter_of_mem (hmem.mpr hpinned),
          Finset.card_singleton, ← hcounter .pins]
        rfl
      · rw [if_neg hpinned, Finset.singleton_inter_of_notMem (mt hmem.mp hpinned),
          Finset.card_empty, hcounter .pins, Nat.add_zero]
    · rw [← hcounter counter]
      split_ifs
      · cases counter <;> first | exact absurd rfl hne | rfl
      · rfl

/-- A trim counts the pins it removes and nothing else. -/
theorem shrinks_commitTrim (p : WorkingSetPolicy N) (plan : TrimPlan N) :
    Shrinks p (p.commitTrim plan) := by
  unfold commitTrim
  generalize plan.evictions = evictions
  induction evictions generalizing p with
  | nil => exact .refl p
  | cons eviction evictions ih =>
    exact (p.shrinks_commitTrimEviction eviction).trans (ih _)

/-! ## Admissions -/

/-- The rotation of the stable lane, the compaction of a lineage and the pin quota. -/
def displacedBy (p : WorkingSetPolicy N) (key : CacheKey N) (role : Role)
    (predecessor : Option (CacheKey N)) : Displaced N where
  rotated := (p.rotated key role).toFinset
  compacted := (p.compacted key role predecessor).toFinset
  quota := (p.quotaPin key role).toFinset

/-- What the departures from `p` to `q` are worth to a counter. -/
def worth (p q : WorkingSetPolicy N) (d : Displaced N) : Counter → ℕ
  | .pins => ((p.departed q \ (d.rotated ∪ d.compacted ∪ d.quota)) ∩ p.pinnedKeys).card
  | .quotaPins => (p.departed q ∩ d.quota).card
  | .successors => (p.departed q ∩ d.compacted).card
  | .promotions | .rejections => 0

theorem worth_of_keys (d : Displaced N) (h : q.entries.keys = p.entries.keys)
    (counter : Counter) : p.worth q d counter = 0 := by
  cases counter <;> simp [worth, departed_of_keys h]

theorem Shrinks.counter (h : Shrinks p q) (counter : Counter) :
    q.counter counter = p.counter counter + p.worth q .nothing counter := by
  cases counter with
  | pins => simpa [worth, Displaced.nothing] using h.pins
  | quotaPins | successors | promotions | rejections =>
    rw [h.others _ (by simp)]
    simp [worth, Displaced.nothing]

theorem commitEviction_counter {eviction : Eviction N} {entry : EntryState N}
    (hget : p.entries.get? eviction.key = some entry) (counter : Counter) :
    (p.commitEviction eviction).counter counter =
      p.counter counter + if counter.countsEviction eviction.reason entry then 1 else 0 := by
  have hcounter := p.removeEntry_counter eviction.key
  have hfound := p.removeEntry_fst eviction.key
  unfold commitEviction
  rcases hremove : p.removeEntry eviction.key with ⟨found, q⟩
  rw [hremove] at hfound hcounter
  dsimp only at hfound hcounter ⊢
  rw [hfound, hget, ← hcounter counter]
  dsimp only
  cases hreason : eviction.reason with
  | capacity =>
    by_cases hpinned : entry.pinned = true
    · rw [if_pos hpinned]
      cases counter <;> simp [Counter.countsEviction, hpinned, WorkingSetPolicy.counter]
    · rw [if_neg hpinned]
      cases counter <;> simp [Counter.countsEviction, hpinned]
  | stableRotate | activeSuccessor | pinQuota | trim | remoteEvicted =>
    cases counter <;> simp [Counter.countsEviction, WorkingSetPolicy.counter]

/-- Distinct residents are all counted. -/
theorem foldl_counter {evictions : List (Eviction N)}
    (hdistinct : (evictions.map Eviction.key).Nodup)
    (hresident : ∀ e ∈ evictions, e.key ∈ p.entries.keys) (counter : Counter) :
    (evictions.foldl commitEviction p).counter counter = p.counter counter +
      evictions.countP fun e => (p.entries.get? e.key).any (counter.countsEviction e.reason) := by
  induction evictions generalizing p with
  | nil => rfl
  | cons e evictions ih =>
    obtain ⟨he, hrest⟩ := List.nodup_cons.mp hdistinct
    obtain ⟨entry, hentry⟩ := Dict.mem_keys_iff.mp (hresident e List.mem_cons_self)
    have hapart : ∀ e' ∈ evictions, e'.key ≠ e.key := by
      intro e' he' heq
      exact he (heq ▸ List.mem_map_of_mem he')
    have hleft : ∀ e' ∈ evictions, e'.key ∈ (p.commitEviction e).entries.keys := by
      intro e' he'
      rw [commitEviction_entries, Dict.mem_keys_erase]
      exact ⟨hresident e' (List.mem_cons_of_mem e he'), hapart e' he'⟩
    have hsame : evictions.countP (fun e' => ((p.commitEviction e).entries.get? e'.key).any
          (counter.countsEviction e'.reason)) =
        evictions.countP (fun e' => (p.entries.get? e'.key).any
          (counter.countsEviction e'.reason)) := by
      refine List.countP_congr fun e' he' => ?_
      rw [commitEviction_entries, Dict.get?_erase, if_neg (hapart e' he')]
    rw [List.foldl_cons, ih hrest hleft, commitEviction_counter hentry, List.countP_cons, hsame,
      hentry, Option.any_some]
    omega

/-- Counting the evictions of a list that name each key once. -/
theorem countP_evictions {evictions : List (Eviction N)}
    (hdistinct : (evictions.map Eviction.key).Nodup) {counts : Eviction N → Bool}
    {keys : Finset (CacheKey N)} (hcounts : ∀ e ∈ evictions, counts e = true ↔ e.key ∈ keys) :
    evictions.countP counts = (evictedKeys evictions ∩ keys).card := by
  have hset : evictedKeys evictions ∩ keys =
      ((evictions.filter counts).map Eviction.key).toFinset := by
    ext k
    rw [Finset.mem_inter, mem_evictedKeys, List.mem_toFinset, List.mem_map]
    constructor
    · rintro ⟨⟨e, he, rfl⟩, hkeys⟩
      exact ⟨e, List.mem_filter.mpr ⟨he, (hcounts e he).mpr hkeys⟩, rfl⟩
    · rintro ⟨e, he, rfl⟩
      obtain ⟨he, hcount⟩ := List.mem_filter.mp he
      exact ⟨⟨e, he, rfl⟩, (hcounts e he).mp hcount⟩
  have hnodup := hdistinct.sublist ((List.filter_sublist (p := counts)).map Eviction.key)
  rw [hset, List.toFinset_card_of_nodup hnodup, List.length_map, List.countP_eq_length_filter]

theorem commitStable_counter {N : Type} (p : WorkingSetPolicy N) (plan : AdmissionPlan N)
    (counter : Counter) :
    (p.commitStable plan).counter counter = p.counter counter +
      if counter = .promotions ∧ plan.Promotes then 1 else 0 := by
  unfold commitStable
  by_cases hpromotes : plan.Promotes
  · obtain ⟨hrole, hreason⟩ := hpromotes
    have hstable : plan.reason.isStable = true := by
      rcases hreason with hreason | hreason <;> rw [hreason] <;> rfl
    rw [if_pos ⟨hrole, hstable⟩, if_pos hreason]
    cases counter <;>
      simp [WorkingSetPolicy.counter, resetStableCandidate, AdmissionPlan.Promotes, hrole, hreason]
  · rw [if_neg (c := counter = .promotions ∧ plan.Promotes) (fun h => hpromotes h.2), Nat.add_zero]
    split_ifs with hstable hreason
    · exact absurd ⟨hstable.1, hreason⟩ hpromotes
    · cases counter <;> rfl
    · rfl

/-- The residents that leave at a commit. -/
theorem departed_commit {plan : AdmissionPlan N} (hacc : plan.accepted = true)
    (hresident : ∀ e ∈ plan.evictions, e.key ∈ p.entries.keys)
    (hspares : ∀ e ∈ plan.evictions, e.key ≠ plan.key) :
    p.departed (p.commit plan) = evictedKeys plan.evictions := by
  ext k
  rw [mem_departed, ← Dict.get?_eq_none_iff, commit_get? p hacc]
  constructor
  · rintro ⟨hold, hgone⟩
    split_ifs at hgone with hself hevicted
    · exact hevicted
    · exact absurd hold (Dict.get?_eq_none_iff.mp hgone)
  · intro hevicted
    obtain ⟨e, he, rfl⟩ := mem_evictedKeys.mp hevicted
    rw [if_neg (hspares e he), if_pos hevicted]
    exact ⟨hresident e he, rfl⟩

/-- An accepted plan writes each key down once, so the rule that displaces it is its reason. -/
theorem Regular.reason_iff (h : p.Regular)
    (hacc : (p.planAdmission key role nbytes predecessor).accepted = true) {e : Eviction N}
    (he : e ∈ (p.planAdmission key role nbytes predecessor).evictions) :
    (e.reason = .activeSuccessor ↔ e.key ∈ p.compacted key role predecessor) ∧
      (e.reason = .pinQuota ↔ e.key ∈ p.quotaPin key role) ∧
      (e.reason = .capacity ↔ e.key ∉ p.rotated key role ∧
        e.key ∉ p.compacted key role predecessor ∧ e.key ∉ p.quotaPin key role) := by
  have hroom := planAdmission_accepted hacc
  obtain ⟨taken, htaken⟩ := h.toChronological.exists_takes hroom key role predecessor
  have hdistinct := (h.evictsProperly hacc).distinct
  have hwritten {reason : EvictionReason} : e.reason = reason ↔
      ⟨e.key, reason⟩ ∈ (p.planAdmission key role nbytes predecessor).evictions := by
    refine ⟨fun hreason => hreason ▸ he, fun hother => ?_⟩
    exact congrArg Eviction.reason (List.inj_on_of_nodup_map hdistinct he hother rfl)
  have hrotated : e.reason = .stableRotate ↔ e.key ∈ p.rotated key role := by
    rw [hwritten, h.toChronological.mem_plan hroom htaken]
    simp
  have hcompacted : e.reason = .activeSuccessor ↔ e.key ∈ p.compacted key role predecessor := by
    rw [hwritten, h.toChronological.mem_plan hroom htaken]
    simp
  have hquota : e.reason = .pinQuota ↔ e.key ∈ p.quotaPin key role := by
    rw [hwritten, h.toChronological.mem_plan hroom htaken]
    simp
  refine ⟨hcompacted, hquota, ?_⟩
  rw [← hrotated, ← hcompacted, ← hquota]
  constructor
  · rintro hreason
    simp [hreason]
  · rintro ⟨hr, hc, hq⟩
    rcases (h.toChronological.mem_plan hroom htaken).mp (hwritten.mp rfl) with
      ⟨hreason, -⟩ | ⟨hreason, -⟩ | ⟨hreason, -⟩ | ⟨hreason, -⟩
    · exact absurd hreason hr
    · exact absurd hreason hc
    · exact absurd hreason hq
    · exact hreason

/-- An admission as it is accepted, under any reason, moves the counters by its departures,
and that of the promotions by its reason. -/
theorem Regular.commit_counter (h : p.Regular) {plan : AdmissionPlan N}
    (hacc : plan.accepted = true) {reason : AdmissionReason}
    (hplan : plan = { p.planAdmission key role nbytes predecessor with reason := reason })
    (counter : Counter) :
    (p.commit plan).counter counter = p.counter counter +
      p.worth (p.commit plan) (p.displacedBy key role predecessor) counter +
      if counter = .promotions ∧ plan.Promotes then 1 else 0 := by
  have hadmission : (p.planAdmission key role nbytes predecessor).accepted = true := by
    rw [← hacc, hplan]
  have hevictions : plan.evictions = (p.planAdmission key role nbytes predecessor).evictions := by
    rw [hplan]
  have hkey : plan.key = key := by
    rw [hplan]
    exact (p.planAdmission_spec key role nbytes predecessor).1
  have hproper := h.evictsProperly hadmission
  rw [← hevictions] at hproper
  have hreason {e : Eviction N} (he : e ∈ plan.evictions) :=
    h.reason_iff hadmission (hevictions ▸ he)
  have hfield : (p.commit plan).counter counter =
      p.counter counter + plan.evictions.countP
        (fun e => (p.entries.get? e.key).any (counter.countsEviction e.reason)) +
        if counter = .promotions ∧ plan.Promotes then 1 else 0 := by
    rw [WorkingSetPolicy.commit, if_pos hacc]
    dsimp only
    rw [commitStable_counter, ← foldl_counter hproper.distinct hproper.resident counter,
      ← removeEntry_counter (plan.evictions.foldl commitEviction p) plan.key counter]
    cases counter <;> rfl
  have hdeparted : p.departed (p.commit plan) = evictedKeys plan.evictions :=
    departed_commit hacc hproper.resident fun e he => hkey ▸ hproper.spares e he
  have hentry {e : Eviction N} (he : e ∈ plan.evictions) :=
    Dict.mem_keys_iff.mp (hproper.resident e he)
  rw [hfield]
  congr 2
  unfold worth displacedBy
  rw [hdeparted]
  dsimp only
  cases counter with
  | promotions | rejections =>
    refine List.countP_eq_zero.mpr fun e he => ?_
    obtain ⟨entry, hget⟩ := hentry he
    simp [hget, Counter.countsEviction]
  | quotaPins =>
    refine countP_evictions hproper.distinct fun e he => ?_
    obtain ⟨entry, hget⟩ := hentry he
    rw [hget, Option.any_some, List.mem_toFinset, ← (hreason he).2.1]
    simp [Counter.countsEviction]
  | successors =>
    refine countP_evictions hproper.distinct fun e he => ?_
    obtain ⟨entry, hget⟩ := hentry he
    rw [hget, Option.any_some, List.mem_toFinset, ← (hreason he).1]
    simp [Counter.countsEviction]
  | pins =>
    rw [Finset.sdiff_inter_right_comm, Finset.inter_sdiff_assoc]
    refine countP_evictions hproper.distinct fun e he => ?_
    obtain ⟨entry, hget⟩ := hentry he
    have hpinned : e.key ∈ p.pinnedKeys ↔ entry.pinned = true := by
      rw [mem_pinnedKeys, hget]
      simp
    rw [hget, Option.any_some, Finset.mem_sdiff, hpinned, Finset.mem_union, Finset.mem_union,
      List.mem_toFinset, List.mem_toFinset, List.mem_toFinset, not_or, not_or, and_assoc,
      ← (hreason he).2.2, and_comm]
    simp [Counter.countsEviction]

/-- An admission into the stable lane displaces the one other stable resident there is. -/
theorem Regular.card_rotated (h : p.Regular) {plan : AdmissionPlan N} (hacc : plan.accepted = true)
    {reason : AdmissionReason}
    (hplan : plan = { p.planAdmission key role nbytes predecessor with reason := reason }) :
    (p.departed (p.commit plan) ∩ (p.displacedBy key role predecessor).rotated).card =
      if p.rotated key role ≠ [] then 1 else 0 := by
  have hadmission : (p.planAdmission key role nbytes predecessor).accepted = true := by
    rw [← hacc, hplan]
  have hproper := h.evictsProperly hadmission
  have hkey : plan.key = key := by
    rw [hplan]
    exact (p.planAdmission_spec key role nbytes predecessor).1
  have hevictions : plan.evictions = (p.planAdmission key role nbytes predecessor).evictions := by
    rw [hplan]
  rw [← hevictions] at hproper
  have hdeparted : p.departed (p.commit plan) = evictedKeys plan.evictions :=
    departed_commit hacc hproper.resident fun e he => hkey ▸ hproper.spares e he
  have hmem {k : CacheKey N} : k ∈ p.rotated key role ↔
      role = "stable" ∧ p.roleOf k = some "stable" ∧ k ≠ key := mem_rotated h.toRepresents
  have hgone : (p.displacedBy key role predecessor).rotated ⊆ evictedKeys plan.evictions := by
    intro k hk
    have hrotates := (hproper.rotation k).mpr (hmem.mp (List.mem_toFinset.mp hk))
    exact mem_evictedKeys.mpr ⟨_, hrotates, rfl⟩
  rw [hdeparted, Finset.inter_eq_right.mpr hgone]
  split_ifs with hlane
  · obtain ⟨incumbent, hincumbent⟩ := List.exists_mem_of_ne_nil _ hlane
    refine Finset.card_eq_one.mpr ⟨incumbent, ?_⟩
    ext k
    rw [displacedBy, List.mem_toFinset, Finset.mem_singleton]
    refine ⟨fun hk => hproper.lane k incumbent (hmem.mp hk).2.1 (hmem.mp hincumbent).2.1, ?_⟩
    rintro rfl
    exact hincumbent
  · rw [displacedBy, not_not.mp hlane]
    rfl

/-! ## Stable candidates -/

theorem displacedBy_congr (hsame : SameResidents p q) (key : CacheKey N) (role : Role)
    (predecessor : Option (CacheKey N)) :
    q.displacedBy key role predecessor = p.displacedBy key role predecessor := by
  obtain ⟨hconfig, hentries, hbuckets, -⟩ := hsame
  cases p
  cases q
  dsimp only at hconfig hentries hbuckets
  subst hconfig hentries hbuckets
  rfl

theorem worth_congr (hsame : SameResidents p q) (r : WorkingSetPolicy N) (d : Displaced N) :
    q.worth r d = p.worth r d := by
  funext counter
  simp only [worth, departed, residents, pinnedKeys, hsame.entries]

/-- What planning a stable candidate counts, when it is refused for its probation and when
it is promoted over an incumbent. -/
structure Candidacy (p : WorkingSetPolicy N) (key : CacheKey N) (nbytes : ℤ)
    (plan : AdmissionPlan N) (q : WorkingSetPolicy N) : Prop where
  counters : ∀ counter, q.counter counter = p.counter counter +
    if counter = .rejections ∧ plan.reason = .stableProbation then 1 else 0
  probation : plan.reason = .stableProbation ↔ plan.accepted = false ∧ p.Admissible nbytes
  promotes : plan.accepted = true → (plan.Promotes ↔ p.rotated key "stable" ≠ [])

theorem advanceProbation_counter (p : WorkingSetPolicy N) (key : CacheKey N)
    (current : EntryState N) (counter : Counter) :
    (p.advanceProbation key current).counter counter = p.counter counter := by
  unfold advanceProbation
  split_ifs <;> cases counter <;> rfl

/-- A candidate that is planned for admission, with the incumbent it would displace. -/
theorem candidacy_planned (h : p.Chronological) (hroom : p.Admissible nbytes)
    (hsame : SameResidents p q) (hcounter : ∀ counter, q.counter counter = p.counter counter)
    {reason : AdmissionReason} (hreason : reason ≠ .stableProbation)
    (hpromotes : (reason = .stableColdLarger ∨ reason = .stableRepeatedMiss) ↔
      p.rotated key "stable" ≠ []) :
    Candidacy p key nbytes (q.planStable key nbytes reason) q := by
  have hacc : (q.planStable key nbytes reason).accepted = true := by
    refine ((h.congr hsame).planAdmission_accepted_iff key "stable" nbytes none).mpr ?_
    rwa [Admissible, hsame.config]
  have hrole : (q.planStable key nbytes reason).role = "stable" :=
    (q.planAdmission_spec key "stable" nbytes none).2.1
  refine ⟨fun counter => ?_, ?_, fun _ => ?_⟩
  · rw [hcounter, if_neg (fun hboth => hreason hboth.2), Nat.add_zero]
  · rw [hacc]
    exact ⟨fun heq => absurd heq hreason, fun hboth => absurd hboth.1 (by simp)⟩
  · rw [← hpromotes]
    exact and_iff_right hrole

theorem Regular.candidacy (h : p.Regular) {plan : AdmissionPlan N}
    (hplan : planStableCandidate key nbytes p = (.ok plan, q)) : Candidacy p key nbytes plan q := by
  have hdisabled : (p.config.maxSequences ≤ 0 ∨ p.config.maxBytes ≤ 0 ∨
      nbytes > p.config.maxBytes) ↔ ¬ p.Admissible nbytes := by
    unfold Admissible
    omega
  have hlane {k : CacheKey N} : k ∈ p.keysForRole "stable" ↔ p.roleOf k = some "stable" :=
    h.toRepresents.mem_keysForRole
  have hrotated {k : CacheKey N} : k ∈ p.rotated key "stable" ↔
      k ∈ p.keysForRole "stable" ∧ k ≠ key := by
    rw [mem_rotated h.toRepresents, hlane]
    simp
  unfold planStableCandidate at hplan
  split_ifs at hplan with hoff
  · cases hplan
    have hroom := hdisabled.mp hoff
    exact ⟨by simp, by simp [hroom], by simp⟩
  · have hroom : p.Admissible nbytes := by
      by_contra hnot
      exact hoff (hdisabled.mpr hnot)
    split at hplan
    · rename_i hempty
      cases hplan
      exact candidacy_planned h.toChronological hroom (.refl p) (fun _ => rfl) (by decide)
        (by simp [rotated, hempty])
    · rename_i currentKey rest hhead
      have hcurrent : currentKey ∈ p.keysForRole "stable" := by simp [hhead]
      have hunique {k : CacheKey N} (hk : k ∈ p.keysForRole "stable") : k = currentKey :=
        h.lane_unique (hlane.mp hk) (hlane.mp hcurrent)
      split at hplan
      · cases hplan
      · rename_i current hget
        dsimp only at hplan
        split_ifs at hplan with hself hcold
        · cases hplan
          refine candidacy_planned h.toChronological hroom (.refl p) (fun _ => rfl) (by decide) ?_
          simp only [reduceCtorEq, or_self, false_iff, not_not, List.eq_nil_iff_forall_not_mem,
            hrotated, not_and]
          exact fun k hk => (hunique hk).trans hself
        · cases hplan
          exact candidacy_planned h.toChronological hroom (.refl p) (fun _ => rfl) (by decide)
            (iff_of_true (Or.inl rfl) (List.ne_nil_of_mem (hrotated.mpr ⟨hcurrent, hself⟩)))
        · cases hplan
          exact candidacy_planned h.toChronological hroom ⟨by simp, by simp, by simp, by simp⟩
            (p.advanceProbation_counter key current) (by decide)
            (iff_of_true (Or.inr rfl) (List.ne_nil_of_mem (hrotated.mpr ⟨hcurrent, hself⟩)))
        · cases hplan
          refine ⟨fun counter => ?_, by simp [hroom], by simp⟩
          rw [← p.advanceProbation_counter key current counter]
          cases counter <;> simp [WorkingSetPolicy.counter]

end WorkingSetPolicy

end StateBraid.Policy
