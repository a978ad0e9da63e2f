import StateBraid.Library.Run
import StateBraid.Policy.StableLane

/-!
# A policy in use

Whoever uses a policy may commit any plan at any time, also one made in an earlier
state, and may go back to any snapshot taken before. Table, buckets and byte total
agree after every such run. When each plan is committed over the residents it was made
over, no second stable entry gets in.
-/

namespace StateBraid.Policy
open Library

variable {N : Type} [DecidableEq N]

/-- The calls that a user of the policy makes. -/
inductive Call (N : Type)
  | commit (plan : AdmissionPlan N)
  | commitTrim (plan : TrimPlan N)
  | observeHit (key : CacheKey N)
  | planAdmission (key : CacheKey N) (role : Role) (nbytes : ℤ) (predecessor : Option (CacheKey N))
  | planStableCandidate (key : CacheKey N) (nbytes : ℤ)
  | planTrim (nSequences nBytes : Option ℤ)
  | captureState
  | restoreState (snapshot : PolicySnapshot N)

/-- The policy, the snapshots captured so far, and the admission plans made so far, each
with the state that its planning left. -/
structure Usage (N : Type) where
  policy : WorkingSetPolicy N
  captured : List (PolicySnapshot N)
  made : List (AdmissionPlan N × WorkingSetPolicy N)

namespace Usage

def start (config : PolicyConfig) : Usage N := ⟨.new config, [], []⟩

/-- One call. Planning a trim changes nothing, and a planner that raises makes no plan. -/
def call (s : Usage N) : Call N → Usage N
  | .commit plan => { s with policy := s.policy.commit plan }
  | .commitTrim plan => { s with policy := s.policy.commitTrim plan }
  | .observeHit key => { s with policy := (s.policy.observeHit key).2 }
  | .planAdmission key role nbytes predecessor =>
    { s with made := (s.policy.planAdmission key role nbytes predecessor, s.policy) :: s.made }
  | .planStableCandidate key nbytes =>
    match WorkingSetPolicy.planStableCandidate key nbytes s.policy with
    | (.ok plan, policy) => { s with policy := policy, made := (plan, policy) :: s.made }
    | (.error _, policy) => { s with policy := policy }
  | .planTrim _ _ => s
  | .captureState => { s with captured := s.policy.captureState :: s.captured }
  | .restoreState snapshot => { s with policy := s.policy.restoreState snapshot }

/-- An admission carries a size as the planners produce them, and a snapshot was captured
earlier. -/
def Allowed (s : Usage N) : Call N → Prop
  | .commit plan => plan.accepted = true → 0 ≤ plan.nbytes
  | .restoreState snapshot => snapshot ∈ s.captured
  | _ => True

/-- A committed plan was made over the residents it is committed over: in this very state,
or in one that differs in hits, counters and the probation. -/
def Timely (s : Usage N) (c : Call N) : Prop :=
  s.Allowed c ∧ ∀ plan, c = .commit plan →
    ∃ made, (plan, made) ∈ s.made ∧ made.buckets = s.policy.buckets

/-! ## What every state of a run satisfies -/

/-- A property of the policy, its snapshots and its plans: the policy has it, a snapshot
restores a policy that has it, and a plan rotates the lane of the state it was made in. -/
structure Throughout (config : PolicyConfig) (I : WorkingSetPolicy N → Prop) (s : Usage N) :
    Prop where
  policy : I s.policy
  configured : s.policy.config = config
  captured : ∀ snapshot ∈ s.captured, ∃ p, I p ∧ p.config = config ∧ snapshot = p.captureState
  made : ∀ plan p, (plan, p) ∈ s.made → p.Rotates plan

/-- The calls other than a commit that change the residents or the counters keep `I`. -/
structure Kept (I : WorkingSetPolicy N → Prop) : Prop where
  commitTrim : ∀ {p} plan, I p → I (p.commitTrim plan)
  observeHit : ∀ {p} key, I p → I (p.observeHit key).2
  planning : ∀ {p q}, I p → WorkingSetPolicy.SameResidents p q → I q

variable {config : PolicyConfig} {I : WorkingSetPolicy N → Prop} {s t : Usage N}

/-- A new plan joins the plans made, next to the state its planning left. -/
theorem Throughout.plan (h : s.Throughout config I) {plan : AdmissionPlan N}
    {p : WorkingSetPolicy N} (hp : I p) (hconfig : p.config = config) (hrotates : p.Rotates plan) :
    ({ s with policy := p, made := (plan, p) :: s.made } : Usage N).Throughout config I := by
  refine ⟨hp, hconfig, h.captured, fun plan' p' hmade => ?_⟩
  rcases List.mem_cons.mp hmade with heq | hmade
  · obtain ⟨rfl, rfl⟩ := Prod.mk.inj heq
    exact hrotates
  · exact h.made plan' p' hmade

theorem Throughout.call (hI : Kept I) (h : s.Throughout config I) (c : Call N)
    (hallowed : s.Allowed c)
    (hcommit : ∀ plan, c = .commit plan → I (s.policy.commit plan)) :
    (s.call c).Throughout config I := by
  cases c with
  | commit plan =>
    exact ⟨hcommit plan rfl, (s.policy.commit_config plan).trans h.configured, h.captured, h.made⟩
  | commitTrim plan =>
    exact ⟨hI.commitTrim plan h.policy, (s.policy.commitTrim_config plan).trans h.configured,
      h.captured, h.made⟩
  | observeHit key =>
    exact ⟨hI.observeHit key h.policy, (s.policy.observeHit_config key).trans h.configured,
      h.captured, h.made⟩
  | planAdmission key role nbytes predecessor =>
    exact h.plan h.policy h.configured
      (s.policy.planAdmission_rotates key role nbytes predecessor)
  | planStableCandidate key nbytes =>
    have hsame := s.policy.planStableCandidate_sameResidents key nbytes
    simp only [Usage.call]
    generalize hplanned : WorkingSetPolicy.planStableCandidate key nbytes s.policy = r at hsame ⊢
    have hleft : I r.2 := hI.planning h.policy hsame
    have hconfig : r.2.config = config := hsame.config.trans h.configured
    obtain ⟨error | plan, q⟩ := r
    · exact ⟨hleft, hconfig, h.captured, h.made⟩
    · exact h.plan hleft hconfig (WorkingSetPolicy.planStableCandidate_rotates hplanned)
  | planTrim => exact h
  | captureState =>
    refine ⟨h.policy, h.configured, fun snapshot hmem => ?_, h.made⟩
    rcases List.mem_cons.mp hmem with rfl | hmem
    · exact ⟨s.policy, h.policy, h.configured, rfl⟩
    · exact h.captured snapshot hmem
  | restoreState snapshot =>
    obtain ⟨p, hp, hconfig, rfl⟩ := h.captured snapshot hallowed
    have hback : s.policy.restoreState p.captureState = p :=
      p.restoreState_captureState s.policy (h.configured.trans hconfig.symm)
    refine ⟨?_, ?_, h.captured, h.made⟩
    · change I (s.policy.restoreState p.captureState)
      rwa [hback]
    · change (s.policy.restoreState p.captureState).config = config
      rwa [hback]

/-- What holds of the empty policy and survives every call holds after every run. -/
theorem throughout_run {allowed : Usage N → Call N → Prop} (hI : Kept I)
    (hnew : I (.new config)) (hallowed : ∀ s c, allowed s c → s.Allowed c)
    (hcommit : ∀ s plan, s.Throughout config I → allowed s (.commit plan) →
      I (s.policy.commit plan))
    (hrun : Run call allowed (start config) t) : t.Throughout config I := by
  refine Run.invariant ⟨hnew, rfl, by simp [start], by simp [start]⟩ (fun s c h hc => ?_) hrun
  refine h.call hI c (hallowed s c hc) ?_
  rintro plan rfl
  exact hcommit s plan h hc

end Usage

namespace WorkingSetPolicy

variable {p q : WorkingSetPolicy N}

/-- The representation, with the sizes of the entries. -/
structure Sized (p : WorkingSetPolicy N) : Prop where
  represents : p.Represents
  nonneg : ∀ {k e}, p.entries.get? k = some e → 0 ≤ e.nbytes

theorem Sized.new (config : PolicyConfig) :
    (WorkingSetPolicy.new config : WorkingSetPolicy N).Sized where
  represents := new_represents config
  nonneg h := by simp [WorkingSetPolicy.new] at h

theorem Sized.commit (h : p.Sized) {plan : AdmissionPlan N}
    (hsize : plan.accepted = true → 0 ≤ plan.nbytes) : (p.commit plan).Sized where
  represents := commit_represents h.represents plan
  nonneg {k e} hk := by
    cases hacc : plan.accepted with
    | false =>
      rw [commit_rejected p hacc] at hk
      exact h.nonneg hk
    | true =>
      rw [commit_get? p hacc] at hk
      split_ifs at hk
      · obtain rfl := Option.some.inj hk
        exact hsize hacc
      · exact h.nonneg hk

theorem Sized.kept : Usage.Kept (Sized (N := N)) where
  commitTrim {p} plan h := by
    refine ⟨commitTrim_represents h.represents plan, fun {k e} hk => ?_⟩
    rw [commitTrim_get?] at hk
    split_ifs at hk
    exact h.nonneg hk
  observeHit {p} key h := by
    refine ⟨observeHit_represents h.represents key, fun {k e} hk => ?_⟩
    rw [observeHit_get?, Option.map_eq_some_iff] at hk
    obtain ⟨e₀, he₀, rfl⟩ := hk
    have := h.nonneg he₀
    split_ifs <;> exact this
  planning {p q} h hsame := by
    refine ⟨h.represents.congr hsame, fun {k e} hk => ?_⟩
    rw [hsame.entries] at hk
    exact h.nonneg hk

theorem Sized.total_nonneg (h : p.Sized) : 0 ≤ p.nbytes := by
  rw [h.represents.total]
  refine List.sum_nonneg fun n hn => ?_
  obtain ⟨⟨k, e⟩, hmem, rfl⟩ := List.mem_map.mp hn
  exact h.nonneg (Dict.get?_eq_some_iff.mpr hmem)

theorem StableLane.kept : Usage.Kept (StableLane (N := N)) where
  commitTrim plan h := h.commitTrim plan
  observeHit key h := h.observeHit key
  planning h hsame := h.congr hsame

/-- What a plan rotates only depends on the buckets. -/
theorem Rotates.congr {plan : AdmissionPlan N} (h : p.Rotates plan)
    (hbuckets : p.buckets = q.buckets) : q.Rotates plan := by
  unfold Rotates keysForRole at h ⊢
  rwa [← hbuckets]

/-- Entry table, role buckets and byte total describe one set of residents. -/
structure Consistent (p : WorkingSetPolicy N) : Prop where
  total : p.nbytes = (p.entries.values.map EntryState.nbytes).sum
  nonneg : 0 ≤ p.nbytes
  entry : ∀ key e, p.entries.get? key = some e →
    e.key = key ∧ (e.pinned = true ↔ e.role ∈ p.config.pinRoles)
  bucketed : ∀ key e, p.entries.get? key = some e →
    ∀ role, (p.keysForRole role).count key = if role = e.role then 1 else 0
  resident : ∀ role, ∀ key ∈ p.keysForRole role, key ∈ p.entries.keys

theorem keysForRole_nodup {N : Type} (p : WorkingSetPolicy N) (role : Role) :
    (p.keysForRole role).Nodup :=
  Dict.keys_nodup _

theorem Sized.consistent (h : p.Sized) : p.Consistent where
  total := by
    rw [h.represents.total, residentBytes, Dict.values, List.map_map]
    rfl
  nonneg := h.total_nonneg
  entry key e he := ⟨h.represents.key he, by simp [h.represents.pinned he]⟩
  bucketed key e he role := by
    have hmem : key ∈ p.keysForRole role ↔ role = e.role := by
      rw [h.represents.mem_keysForRole_iff, he]
      simp [eq_comm]
    split_ifs with hrole
    · exact List.count_eq_one_of_mem (p.keysForRole_nodup role) (hmem.mpr hrole)
    · exact List.count_eq_zero_of_not_mem (hrole ∘ hmem.mp)
  resident _ _ hkey := h.represents.mem_keys hkey

end WorkingSetPolicy

namespace Usage

variable {config : PolicyConfig} {s : Usage N}

/-- After every run the three structures agree, stale plans and restored snapshots
included; and when every plan was committed over the residents it was made over, any two
stable residents are the same. -/
theorem representation_invariant (hrun : Run call Allowed (start config) s) :
    s.policy.Consistent ∧ s.policy.config = config ∧
      (Run call Timely (start config) s → ∀ j k d e, s.policy.entries.get? j = some d →
        d.role = "stable" → s.policy.entries.get? k = some e → e.role = "stable" → j = k) := by
  have hsized : s.Throughout config WorkingSetPolicy.Sized :=
    throughout_run WorkingSetPolicy.Sized.kept (.new config) (fun _ _ h => h)
      (fun _ _ h hsize => h.policy.commit hsize) hrun
  refine ⟨hsized.policy.consistent, hsized.configured, fun htimely j k d e hj hd hk he => ?_⟩
  have hlane : s.Throughout config WorkingSetPolicy.StableLane := by
    refine throughout_run WorkingSetPolicy.StableLane.kept (.new config) (fun _ _ h => h.1)
      (fun t plan h hc => ?_) htimely
    obtain ⟨made, hmade, hbuckets⟩ := hc.2 plan rfl
    exact h.policy.commit ((h.made plan made hmade).congr hbuckets)
  exact hlane.policy.unique hj hd hk he

/-- A stable admission, a stale plan of the same key under another role, and the way back. -/
def sampleCalls : List (Call ℕ) :=
  let admitted : AdmissionPlan ℕ := ⟨true, ⟨0, [1]⟩, "stable", 10, [], .stableEmpty⟩
  let stale : AdmissionPlan ℕ := ⟨true, ⟨0, [1]⟩, "user", 7, [⟨⟨0, [2]⟩, .capacity⟩], .admitted⟩
  let before := ((start (.new 4 100 ∅ none)).call (.planStableCandidate ⟨0, [1]⟩ 10)).call
    (.commit admitted)
  [.planStableCandidate ⟨0, [1]⟩ 10, .commit admitted, .captureState, .commit stale,
    .restoreState before.policy.captureState]

theorem representation_invariant_sample :
    (sampleCalls.foldl call (start (.new 4 100 ∅ none))).policy.Consistent := by
  have hrun : Run call Allowed (start (.new 4 100 ∅ none))
      (sampleCalls.foldl call (start (.new 4 100 ∅ none))) := by
    simp only [sampleCalls, List.foldl_cons, List.foldl_nil]
    refine .next (.next (.next (.next (.next .start trivial) ?_) trivial) ?_) List.mem_cons_self
    · exact fun _ => by decide
    · exact fun _ => by decide
  exact (representation_invariant hrun).1

end Usage

end StateBraid.Policy
